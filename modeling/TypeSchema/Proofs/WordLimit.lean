import Mathlib.Data.List.Forall2
import TypeSchema.Proofs.Arrangement
import TypeSchema.Proofs.Lossless

namespace TypeSchema

/-!
# The limit on the length of words

A caller asks a scan for single items, or for all tokens up to the next error,
in any order and as often as it likes.  What it is told, and where in the text
the scan stands then, does not depend on the limit.  The limit decides about
nothing but the warnings: these are the words over the limit among all tokens
that were met, one warning for each, in the order of the text.  A word is met
also where the caller is not told of it, because an error behind it is the whole
answer.
-/

/-- Faulty text is no word. -/
theorem Fault.kind_ne_word (fault : Fault) : fault.kind ≠ .word := by
  cases fault <;> decide

namespace Scan

/-- What a caller asks for: the next item, or all tokens up to the end of the
text or the first error. -/
inductive Call where
  | next
  | tokenize

/-- What it is told. -/
inductive Answer where
  | item (found : Option Item)
  | tokens (result : Except LexicalError (List Token))

/-- The answer to a call, and the scan behind it. -/
def call (scan : Scan) : Call -> Answer × Scan
  | .next => (.item scan.next.1, scan.next.2)
  | .tokenize => (.tokens scan.run.result, scan.run.last)

/-- The answers to calls made one after another, and the scan behind them. -/
def callAll : List Call -> Scan -> List Answer × Scan
  | [], scan => ([], scan)
  | first :: calls, scan =>
      ((scan.call first).1 :: (callAll calls (scan.call first).2).1,
        (callAll calls (scan.call first).2).2)

/-! ## Without a limit -/

/-- The scan without a limit, and without the warnings that are due to one. -/
def unlimited (scan : Scan) : Scan :=
  { scan with limit := none, warnings := [] }

theorem skipLayout_unlimited (scan : Scan) :
    scan.unlimited.skipLayout = scan.skipLayout.unlimited :=
  rfl

theorem pass_unlimited (scan : Scan) (lexeme : Lexeme) :
    scan.unlimited.pass lexeme = (scan.pass lexeme).unlimited :=
  rfl

theorem next_unlimited (scan : Scan) :
    scan.unlimited.next = (scan.next.1, scan.next.2.unlimited) := by
  have same : scan.unlimited.rest = scan.rest := rfl
  cases ahead : (Layout.split scan.rest).2 with
  | nil =>
      have other := ahead
      rw [← same] at other
      rw [next_of_nil ahead, next_of_nil other, skipLayout_unlimited]
  | cons c chars =>
      have other := ahead
      rw [← same] at other
      rw [next_of_cons ahead, next_of_cons other, skipLayout_unlimited, pass_unlimited]
      rfl

theorem run_unlimited (scan : Scan) :
    scan.unlimited.run = { scan.run with last := scan.run.last.unlimited } := by
  induction scan using Scan.run.induct with
  | case1 scan last found =>
      have step := scan.next_unlimited
      rw [found] at step
      rw [run_of_next_none found, run_of_next_none step]
  | case2 scan error last found =>
      have step := scan.next_unlimited
      rw [found] at step
      rw [run_of_next_error found, run_of_next_error step]
  | case3 scan token after found shorter ih =>
      have step := scan.next_unlimited
      rw [found] at step
      rw [run_of_next_ok found, run_of_next_ok step, ih]

theorem call_unlimited (scan : Scan) (which : Call) :
    scan.unlimited.call which = ((scan.call which).1, (scan.call which).2.unlimited) := by
  cases which with
  | next =>
      rw [call, next_unlimited]
      rfl
  | tokenize =>
      rw [call, run_unlimited]
      rfl

/-- No call finds out about the limit. -/
theorem callAll_unlimited (calls : List Call) (scan : Scan) :
    callAll calls scan.unlimited = ((callAll calls scan).1, (callAll calls scan).2.unlimited) := by
  induction calls generalizing scan with
  | nil => rfl
  | cons first calls ih =>
      rw [callAll, call_unlimited, ih, callAll]

/-! ## Calls as steps -/

theorem answers_append (first second : Nat) (scan : Scan) :
    answers (first + second) scan =
      ((answers first scan).1 ++ (answers second (answers first scan).2).1,
        (answers second (answers first scan).2).2) := by
  induction first generalizing scan with
  | zero => rw [Nat.zero_add, answers, List.nil_append]
  | succ first ih => rw [Nat.succ_add, answers, ih, answers, List.cons_append]

/-- The answer to a call that makes these steps.  The tokens in front of an
error are dropped. -/
inductive Summarizes : List (Option Item) -> Answer -> Prop where
  | item (found : Option Item) : Summarizes [found] (.item found)
  | tokens (tokens : List Token) :
      Summarizes (tokens.map (fun token => some (.ok token)) ++ [none]) (.tokens (.ok tokens))
  | error (dropped : List Token) (error : LexicalError) :
      Summarizes (dropped.map (fun token => some (.ok token)) ++ [some (.error error)])
        (.tokens (.error error))

/-- A run makes one step for each of its tokens, and one that ends it. -/
theorem answers_run (scan : Scan) :
    answers (scan.run.tokens.length + 1) scan =
      (scan.run.tokens.map (fun token => some (.ok token)) ++ [scan.run.error.map .error],
        scan.run.last) := by
  induction scan using Scan.run.induct with
  | case1 scan last found =>
      rw [run_of_next_none found, List.length_nil, answers, answers, found]
      rfl
  | case2 scan error last found =>
      rw [run_of_next_error found, List.length_nil, answers, answers, found]
      rfl
  | case3 scan token after found shorter ih =>
      rw [run_of_next_ok found, List.length_cons, answers, found, ih]
      rfl

theorem exists_steps_of_call (scan : Scan) (which : Call) :
    Exists fun steps => Summarizes steps (scan.call which).1 ∧
      answers steps.length scan = (steps, (scan.call which).2) := by
  cases which with
  | next => exact ⟨[scan.next.1], .item _, rfl⟩
  | tokenize =>
      refine ⟨scan.run.tokens.map (fun token => some (.ok token)) ++ [scan.run.error.map .error], ?_, ?_⟩
      · rw [call, Run.result]
        cases scan.run.error with
        | none => exact .tokens _
        | some error => exact .error _ error
      · rw [List.length_append, List.length_map, List.length_singleton]
        exact scan.answers_run

/-- Calls made one after another make the steps of each of them. -/
theorem exists_steps (calls : List Call) (scan : Scan) :
    Exists fun steps : List (List (Option Item)) =>
      List.Forall₂ Summarizes steps (callAll calls scan).1 ∧
        answers steps.flatten.length scan = (steps.flatten, (callAll calls scan).2) := by
  induction calls generalizing scan with
  | nil => exact ⟨[], .nil, rfl⟩
  | cons first calls ih =>
      rcases scan.exists_steps_of_call first with ⟨own, summarizes, reached⟩
      rcases ih (scan.call first).2 with ⟨later, laterSummarize, laterReached⟩
      refine ⟨own :: later, .cons summarizes laterSummarize, ?_⟩
      rw [List.flatten_cons, List.length_append, answers_append, reached, laterReached]
      rfl

/-! ## Warnings -/

/-- The token that a step has met, unless it has found an error or nothing. -/
def soundToken? : Option Item -> Option Token
  | some (.ok token) => some token
  | _ => none

/-- The warnings that tokens deserve under a limit. -/
def overlong (limit : Option Nat) (tokens : List Token) : List Warning :=
  match limit with
  | none => []
  | some longest =>
      (tokens.filter fun token => token.kind = .word ∧ longest < token.size).map fun token =>
        { limit := longest, token }

theorem overlong_append (limit : Option Nat) (left right : List Token) :
    overlong limit (left ++ right) = overlong limit left ++ overlong limit right := by
  cases limit with
  | none => rfl
  | some longest => rw [overlong, List.filter_append, List.map_append, overlong, overlong]

theorem overlong_singleton (limit : Option Nat) (token : Token) :
    overlong limit [token] = (Warning.of? limit token).toList := by
  cases limit with
  | none => rfl
  | some longest =>
      by_cases tooLong : token.kind = .word ∧ longest < token.size
      · simp [overlong, Warning.of?, tooLong]
      · simp [overlong, Warning.of?, tooLong]

theorem warning_of_lexeme (limit : Option Nat) (lexeme : Lexeme) (offset : Nat) :
    (Warning.of? limit (tokenOf lexeme offset)).toList =
      overlong limit (soundToken? (some (itemOf lexeme offset))).toList := by
  cases verdict : lexeme.verdict with
  | ok kind =>
      rw [itemOf, verdict]
      exact (overlong_singleton limit _).symm
  | error fault =>
      have noWord : (tokenOf lexeme offset).kind ≠ .word := by
        rw [tokenOf, Lexeme.kind, verdict]
        exact Fault.kind_ne_word fault
      rw [itemOf, verdict]
      cases limit with
      | none => rfl
      | some longest => simp [Warning.of?, noWord, soundToken?, overlong]

theorem limit_next (scan : Scan) : scan.next.2.limit = scan.limit := by
  cases ahead : (Layout.split scan.rest).2 with
  | nil =>
      rw [next_of_nil ahead]
      rfl
  | cons c chars =>
      rw [next_of_cons ahead]
      rfl

/-- A step warns of the token that it meets, if that is a word over the limit. -/
theorem warnings_next (scan : Scan) :
    scan.next.2.warnings = scan.warnings ++ overlong scan.limit (soundToken? scan.next.1).toList := by
  cases ahead : (Layout.split scan.rest).2 with
  | nil =>
      rw [next_of_nil ahead]
      cases limit : scan.limit <;> simp [skipLayout, soundToken?, overlong]
  | cons c chars =>
      rw [next_of_cons ahead, ← warning_of_lexeme]
      rfl

theorem warnings_answers (count : Nat) (scan : Scan) :
    (answers count scan).2.warnings =
      scan.warnings ++ overlong scan.limit ((answers count scan).1.filterMap soundToken?) := by
  induction count generalizing scan with
  | zero => cases limit : scan.limit <;> simp [answers, overlong]
  | succ count ih =>
      have split : (answers (count + 1) scan).1.filterMap soundToken? =
          (soundToken? scan.next.1).toList ++ (answers count scan.next.2).1.filterMap soundToken? := by
        rw [answers, List.filterMap_cons]
        cases soundToken? scan.next.1 <;> rfl
      rw [split, overlong_append, answers, ih, limit_next, warnings_next, List.append_assoc]

/-- Whatever calls are made, the answers, the text ahead, the offset and the
numbers of comments are the same under all limits.  The calls make single steps,
and the warnings are those which the tokens of these steps deserve, be they part
of an answer or not. -/
theorem callAll_limit (source : String) (calls : List Call) :
    (forall limit other : Option Nat,
      (callAll calls (start source limit)).1 = (callAll calls (start source other)).1 ∧
      (callAll calls (start source limit)).2.rest = (callAll calls (start source other)).2.rest ∧
      (callAll calls (start source limit)).2.offset = (callAll calls (start source other)).2.offset ∧
      (callAll calls (start source limit)).2.lineComments =
        (callAll calls (start source other)).2.lineComments ∧
      (callAll calls (start source limit)).2.blockComments =
        (callAll calls (start source other)).2.blockComments) ∧
    forall limit : Option Nat, Exists fun steps : List (List (Option Item)) =>
      List.Forall₂ Summarizes steps (callAll calls (start source limit)).1 ∧
      answers steps.flatten.length (start source limit) =
        (steps.flatten, (callAll calls (start source limit)).2) ∧
      (callAll calls (start source limit)).2.warnings =
        overlong limit (steps.flatten.filterMap soundToken?) := by
  constructor
  · intro limit other
    have without := callAll_unlimited calls (start source limit)
    have otherWithout := callAll_unlimited calls (start source other)
    have same : (start source limit).unlimited = (start source other).unlimited := rfl
    rw [same, otherWithout] at without
    rcases Prod.mk.inj without with ⟨sameAnswers, sameScan⟩
    exact ⟨sameAnswers.symm, (congrArg rest sameScan).symm, (congrArg offset sameScan).symm,
      (congrArg lineComments sameScan).symm, (congrArg blockComments sameScan).symm⟩
  · intro limit
    rcases exists_steps calls (start source limit) with ⟨steps, summarize, reached⟩
    have warned := warnings_answers steps.flatten.length (start source limit)
    rw [reached] at warned
    exact ⟨steps, summarize, reached, warned⟩

/-- The first call ends in an error and drops a long word, which has been warned
of nevertheless. -/
example :
    (callAll [.tokenize, .next, .tokenize] (start "long @ ok /**/ longer _" (some 3))).2.warnings.map
      (fun warning => warning.token.text) = ["long", "longer"] := by
  decide +kernel

end Scan
end TypeSchema
