import ArchiveIndex.Index.Session

/-!
# Refused calls leave no trace

A call to an index changes it in place and nothing takes back what a refused call has done. It
has done nothing, because every call makes its checks before it changes anything.

**Theorem (`refusals_leave_no_trace`).** A call is refused for what it asks and never for the state
of the index, and it leaves the index as it was. In a sequence of calls those that are refused may
therefore be left out: what comes of the others does not change, nor does the index at the end.

For each of the calls that can be refused there is one equation (`perform_add`, `perform_feed`,
`perform_glob`): the steps in place lead to what the index makes of the whole call, and to the same
index as before where that is an error. The reasons for which it is refused are read off the
equation (`RefusedFor`), and the steps that may follow add none.
-/

namespace ArchiveIndex.Index

namespace Procedure

variable {ε ι α β : Type}

/-! ## The steps of a call together -/

theorem perform_require (why : ε → Refusal) (x : Except ε α) (index : Index) :
    perform (require why x) index = match x with
      | .ok a => (.ok a, index)
      | .error e => (.error (why e), index) := by
  cases x <;> rfl

theorem perform_verify (b : Block) (index : Index) :
    perform (verify b) index = match b.mismatch? with
      | some m => (.error (.mismatch m), index)
      | none => (.ok (), index) := by
  unfold verify
  cases b.mismatch? <;> rfl

/-- Entries added one by one are all added. -/
theorem perform_addEach (records : List Entry) (index : Index) :
    perform (addEach records) index = (.ok (), records.foldl Index.add index) := by
  induction records generalizing index with
  | nil => rfl
  | cons e records ih => exact ih (index.add e)

theorem perform_add (draft : Entry.Draft) (index : Index) :
    perform (add draft) index = match draft.check with
      | .error flaw => (.error (.entry flaw), index)
      | .ok e => (.ok (), index.add e) := by
  rw [add, perform_bind, perform_require]
  cases draft.check <;> rfl

/-- A block that is fed in place leaves the index that feeding it gives. One that is refused leaves
none of its entries. -/
theorem perform_feed (draft : Block.Draft) (index : Index) :
    perform (feed draft) index = match draft.check with
      | .error flaw => (.error (.block flaw), index)
      | .ok b => match index.feed b with
        | .error m => (.error (.mismatch m), index)
        | .ok index' => (.ok (), index') := by
  rw [feed, perform_bind, perform_require]
  cases draft.check with
  | error flaw => rfl
  | ok b =>
    simp only [perform_bind, perform_verify, perform_addEach, Index.feed]
    cases b.mismatch? <;> rfl

theorem perform_glob (pattern : Text) (index : Index) :
    perform (glob pattern) index = match index.glob pattern with
      | .error rejection => (.error (.pattern rejection), index)
      | .ok found => (.ok found, index.refresh) := by
  rw [glob, perform_bind, perform_require, Index.glob]
  cases Glob.compile pattern <;> rfl

/-! ## Leaving refused procedures out -/

/-- If the procedure is refused, it leaves the index as it was. -/
def Traceless (p : Procedure α) : Prop :=
  ∀ index refusal index', perform p index = (.error refusal, index') → index' = index

/-- What was performed and not refused, each with what came of it. -/
def completed (items : List ι) (outcomes : List (Except Refusal α)) :
    List (ι × Except Refusal α) :=
  (items.zip outcomes).filter fun c => c.2.isOk

/-- Without the procedures that are refused, the others come to the same. -/
theorem performEach_completed {procedure : ι → Procedure α} (h : ∀ i, Traceless (procedure i))
    (index : Index) (items : List ι) :
    performEach procedure index
        ((completed items (performEach procedure index items).1).map (·.1)) =
      ((completed items (performEach procedure index items).1).map (·.2),
        (performEach procedure index items).2) := by
  induction items generalizing index with
  | nil => rfl
  | cons i items ih =>
    rcases hi : perform (procedure i) index with ⟨refusal | a, index'⟩
    · -- The run goes on from where the refused procedure began.
      obtain rfl : index' = index := h i index refusal index' hi
      simpa [performEach, completed, hi, Except.isOk, Except.toBool] using ih index'
    · have hlater := ih index'
      simp only [performEach, completed, hi, List.zip_cons_cons, Except.isOk, Except.toBool,
        List.filter_cons_of_pos, List.map_cons] at hlater ⊢
      rw [hlater]

/-! ## What a procedure is refused for -/

/-- The procedure is refused for these reasons, whatever the index, and leaves it as it was. -/
def RefusedFor (p : Procedure α) (Reason : Refusal → Prop) : Prop :=
  ∀ index refusal index',
    perform p index = (.error refusal, index') ↔ Reason refusal ∧ index' = index

theorem RefusedFor.traceless {p : Procedure α} {Reason : Refusal → Prop}
    (h : RefusedFor p Reason) : Traceless p :=
  fun index refusal index' hrefused => ((h index refusal index').1 hrefused).2

/-- Steps that are not refused themselves may follow. -/
theorem RefusedFor.bind {p : Procedure α} {Reason : Refusal → Prop} (h : RefusedFor p Reason)
    {next : α → Procedure β}
    (hnext : ∀ a index, ∃ b index', perform (next a) index = (.ok b, index')) :
    RefusedFor (p >>= next) Reason := by
  intro index refusal index'
  rw [← h index refusal index', perform_bind]
  rcases perform p index with ⟨why | a, left⟩
  · simp only [Prod.mk.injEq, Except.error.injEq]
  · obtain ⟨b, last, hb⟩ := hnext a left
    simp [hb]

end Procedure

open Procedure

/-- A call is refused if a field of an entry or of a footer in it does not pass its check, if the
footer of a block declares another number of entries, or if a text is no pattern. -/
inductive Call.Refused : Call → Refusal → Prop
  | entry {draft : Entry.Draft} {flaw : Entry.Flaw} :
      draft.check = .error flaw → Refused (.add draft) (.entry flaw)
  | block {draft : Block.Draft} {flaw : Block.Flaw} :
      draft.check = .error flaw → Refused (.feed draft) (.block flaw)
  | mismatch {draft : Block.Draft} {b : Block} {m : CountMismatch} :
      draft.check = .ok b → b.mismatch? = some m → Refused (.feed draft) (.mismatch m)
  | pattern {text : Text} {rejection : Glob.Rejection} :
      Glob.compile text = .error rejection → Refused (.glob text) (.pattern rejection)

theorem refusedFor_add (draft : Entry.Draft) :
    RefusedFor (Procedure.add draft) (Call.add draft).Refused := by
  intro index refusal index'
  rw [perform_add]
  constructor
  · intro h
    cases hcheck : draft.check with
    | ok e => rw [hcheck] at h; cases h
    | error flaw => rw [hcheck] at h; cases h; exact ⟨.entry hcheck, rfl⟩
  · rintro ⟨hrefused, rfl⟩
    cases hrefused with
    | entry hcheck => rw [hcheck]

theorem refusedFor_feed (draft : Block.Draft) :
    RefusedFor (Procedure.feed draft) (Call.feed draft).Refused := by
  intro index refusal index'
  rw [perform_feed]
  constructor
  · intro h
    cases hcheck : draft.check with
    | error flaw => rw [hcheck] at h; cases h; exact ⟨.block hcheck, rfl⟩
    | ok b =>
      cases hm : b.mismatch? with
      | none => simp only [hcheck, Index.feed, hm] at h; cases h
      | some m =>
        simp only [hcheck, Index.feed, hm] at h
        cases h
        exact ⟨.mismatch hcheck hm, rfl⟩
  · rintro ⟨hrefused, rfl⟩
    cases hrefused with
    | block hcheck => rw [hcheck]
    | mismatch hcheck hm => simp only [hcheck, Index.feed, hm]

theorem refusedFor_glob (pattern : Text) :
    RefusedFor (Procedure.glob pattern) (Call.glob pattern).Refused := by
  intro index refusal index'
  rw [perform_glob]
  constructor
  · intro h
    cases hcompile : Glob.compile pattern with
    | ok r => simp only [hcompile, Index.glob, Except.map] at h; cases h
    | error rejection =>
      simp only [hcompile, Index.glob, Except.map] at h
      cases h
      exact ⟨.pattern hcompile, rfl⟩
  · rintro ⟨hrefused, rfl⟩
    cases hrefused with
    | pattern hcompile => simp only [hcompile, Index.glob, Except.map]

theorem refusedFor_endBlock : RefusedFor Procedure.endBlock Call.endBlock.Refused :=
  fun _ _ _ => ⟨nofun, nofun⟩

/-! ## Calls and requests -/

theorem Call.refusedFor (call : Call) : RefusedFor call.procedure call.Refused := by
  have hpure (reply : Reply) (index : Index) :
      ∃ reply' index', perform (pure reply) index = (.ok reply', index') := ⟨_, _, rfl⟩
  cases call with
  | add draft => exact (refusedFor_add draft).bind fun _ => hpure .done
  | endBlock => exact refusedFor_endBlock.bind fun _ => hpure .done
  | feed draft => exact (refusedFor_feed draft).bind fun _ => hpure .done
  | glob pattern => exact (refusedFor_glob pattern).bind fun found => hpure (.entries found)
  | entries | size | deletedNames => exact fun _ _ _ => ⟨nofun, nofun⟩

theorem Request.traceless (request : Request) : Traceless request.procedure := by
  have hglance (u : Unit) (index : Index) :
      ∃ response index', perform glance index = (.ok response, index') := ⟨_, _, rfl⟩
  cases request with
  | add draft => exact ((refusedFor_add draft).bind hglance).traceless
  | endBlock => exact (refusedFor_endBlock.bind hglance).traceless
  | feed draft => exact ((refusedFor_feed draft).bind hglance).traceless
  | glob pattern => exact ((refusedFor_glob pattern).bind fun _ _ => ⟨_, _, rfl⟩).traceless
  | inspect | entries => exact fun _ _ _ => nofun

/-- **Refusals leave no trace.** A call is refused for what it asks, whatever the index, and leaves
the index as it was. In any sequence of calls, leaving out those that are refused changes neither
what comes of the others nor the index at the end. In any session, leaving out the requests that
are refused changes no other response. -/
theorem refusals_leave_no_trace :
    (∀ (call : Call) (index : Index) (refusal : Refusal) (index' : Index),
      perform call.procedure index = (.error refusal, index') ↔
        call.Refused refusal ∧ index' = index) ∧
    (∀ (index : Index) (calls : List Call),
      let run := performEach Call.procedure index calls
      let kept := completed calls run.1
      performEach Call.procedure index (kept.map (·.1)) = (kept.map (·.2), run.2)) ∧
    (∀ (index : Index) (requests : List Request),
      let run := performEach Request.procedure index requests
      let kept := completed requests run.1
      answers index (kept.map (·.1)) = kept.map fun c => Response.ofOutcome c.2) := by
  refine ⟨Call.refusedFor,
    performEach_completed fun call => (Call.refusedFor call).traceless, ?_⟩
  intro index requests run kept
  have hkept : performEach Request.procedure index (kept.map (·.1)) = (kept.map (·.2), run.2) :=
    performEach_completed Request.traceless index requests
  rw [answers, hkept, List.map_map]
  rfl

/-- One entry too few. Whatever waits in the index, the deletion in the block is not recorded. -/
example (index : Index) :
    perform (Procedure.feed ⟨7, [{ name := "a", flag := 1 }], some ⟨2, 0, 0, 0⟩⟩) index =
      (.error (.mismatch ⟨7, 2, 1⟩), index) :=
  rfl

end ArchiveIndex.Index
