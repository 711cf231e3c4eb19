import ArchiveIndex.Dump.Schema
import ArchiveIndex.Proofs.Fallible
import Mathlib

/-!
# The schema of a dump

`IsDump` says which documents are dumps, each field by itself; nothing of it mentions how a
document is read. `Describes` says which blocks a document describes: what field of the document
each field of a block comes from, and what stands for one that is left out.

**Theorem (`readBlocks_iff_schema`).** A document is read exactly if it is a dump, and then as the
blocks that it describes. Of any other document a flaw is raised and nothing else. Documents that
differ only in fields that the schema does not know have the same outcome, be it blocks or a flaw.

The reader is opened once for each kind of record, which gives `readBlocks_eq_ok_iff`. What is
left is that a dump describes something. There the default of `block_offset` counts: it is the
offset of the block, which has been found not to be negative. That the errors of records do not
get through is shown for each reader (`RaisesFlaws`): records are only built where their errors are
taken for flaws.
-/

namespace ArchiveIndex.Dump

/-! ## Dumps -/

/-- There is a field, and its value has a property. -/
def Has (fields : Fields) (name : String) (P : Json → Prop) : Prop :=
  ∃ v, Json.field? fields name = some v ∧ P v

/-- A field is left out, or its value has a property. -/
def MayHave (fields : Fields) (name : String) (P : Json → Prop) : Prop :=
  ∀ v, Json.field? fields name = some v → P v

def IsInteger (v : Json) : Prop := ∃ n, v = .int n

def IsCount (v : Json) : Prop := ∃ n, v = .int n ∧ 0 ≤ n

def IsName (v : Json) : Prop := ∃ t, v = .str t ∧ t ≠ []

def IsListOf (P : Json → Prop) (v : Json) : Prop := ∃ items, v = .arr items ∧ ∀ item ∈ items, P item

def IsObject (P : Fields → Prop) (v : Json) : Prop := ∃ fields, v = .obj fields ∧ P fields

def IsEntry : Json → Prop := IsObject fun fields =>
  Has fields "name" IsName ∧
    (∀ name ∈ ["mtime_ns", "mode", "flag", "crc32"], MayHave fields name IsInteger) ∧
      ∀ name ∈ ["start", "size", "block_offset"], MayHave fields name IsCount

def IsFooter : Json → Prop := IsObject fun fields =>
  (∀ name ∈ ["entry_count", "index_size", "block_size"], Has fields name IsCount) ∧
    MayHave fields "crc32" IsInteger

def IsBlock : Json → Prop := IsObject fun fields =>
  MayHave fields "offset" IsCount ∧ MayHave fields "entries" (IsListOf IsEntry) ∧
    MayHave fields "footer" fun v => v = .null ∨ IsFooter v

/-- The documents that are dumps. -/
def IsDump : Json → Prop := IsObject fun fields => Has fields "blocks" (IsListOf IsBlock)

/-! ## What a dump describes -/

/-- An integer comes from a field, or is what stands for a field that is left out. -/
def Carries (fields : Fields) (name : String) (default n : Int) : Prop :=
  Json.field? fields name = none ∧ n = default ∨ Json.field? fields name = some (.int n)

/-- The fields of an entry of a block at the given offset. -/
structure DescribesEntry (blockOffset : Int) (fields : Fields) (e : Entry) : Prop where
  name : Json.field? fields "name" = some (.str e.name)
  mtimeNs : Carries fields "mtime_ns" 0 e.mtimeNs
  mode : Carries fields "mode" 0 e.mode
  flag : Carries fields "flag" 0 e.flag
  start : Carries fields "start" 0 e.start
  size : Carries fields "size" 0 e.size
  crc32 : Carries fields "crc32" 0 e.crc32
  blockOffset : Carries fields "block_offset" blockOffset e.blockOffset

structure DescribesFooter (fields : Fields) (f : Footer) : Prop where
  entryCount : Json.field? fields "entry_count" = some (.int f.entryCount)
  indexSize : Json.field? fields "index_size" = some (.int f.indexSize)
  blockSize : Json.field? fields "block_size" = some (.int f.blockSize)
  crc32 : Carries fields "crc32" 0 f.crc32

/-- An object, by its fields. -/
def OfObject {α : Type} (R : Fields → α → Prop) (v : Json) (a : α) : Prop :=
  ∃ fields, v = .obj fields ∧ R fields a

structure DescribesBlock (fields : Fields) (b : Block) : Prop where
  offset : Carries fields "offset" 0 b.offset
  offset_nonneg : 0 ≤ b.offset
  /-- One entry for each item, in the same order. -/
  entries : ∃ items, (Json.field? fields "entries" = none ∧ items = [] ∨
      Json.field? fields "entries" = some (.arr items)) ∧
    List.Forall₂ (OfObject (DescribesEntry b.offset)) items b.entries
  footer : match b.footer with
    | none => Json.field? fields "footer" = none ∨ Json.field? fields "footer" = some .null
    | some f => ∃ v, Json.field? fields "footer" = some v ∧ OfObject DescribesFooter v f

/-- The blocks that a document describes: one for each item, in the same order. -/
def Describes : Json → List Block → Prop := OfObject fun fields blocks =>
  ∃ items, Json.field? fields "blocks" = some (.arr items) ∧
    List.Forall₂ (OfObject DescribesBlock) items blocks

/-! ## What the readers accept -/

theorem intField_eq_ok_iff {fields : Fields} {name : String} {default n : Int} :
    intField fields name default = .ok n ↔ Carries fields name default n := by
  unfold intField Carries
  cases Json.field? fields name with
  | none => simp [eq_comm]
  | some v => cases v <;> simp

/-- The check of a draft changes nothing, so the entry is known from the draft. -/
theorem buildEntry_eq_ok_iff {d : Entry.Draft} {e : Entry} :
    buildEntry d = .ok e ↔ d = e.draft := by
  rw [buildEntry, mapError_eq_ok_iff]
  exact ⟨fun h => (Entry.draft_of_check_eq_ok h).symm, fun h => h ▸ Entry.check_draft e⟩

theorem buildFooter_eq_ok_iff {d : Footer.Draft} {f : Footer} :
    buildFooter d = .ok f ↔ d = f.draft := by
  rw [buildFooter, mapError_eq_ok_iff]
  exact ⟨fun h => (Footer.draft_of_check_eq_ok h).symm, fun h => h ▸ Footer.check_draft f⟩

theorem rescue_eq_ok_iff {α : Type} {flawOf : Block.Flaw → Flaw} {x : Except Raised α} {a : α} :
    rescue flawOf x = .ok a ↔ x = .ok a := by
  rcases x with (flaw | error) | b <;> simp [rescue]

theorem readEntryFields_eq_ok_iff {blockOffset : Int} {fields : Fields} {e : Entry} :
    readEntryFields blockOffset fields = .ok e ↔ DescribesEntry blockOffset fields e := by
  unfold readEntryFields
  constructor
  · intro h
    split at h
    · next t hname =>
      simp only [bind_eq_ok_iff, intField_eq_ok_iff, rescue_eq_ok_iff, buildEntry_eq_ok_iff] at h
      obtain ⟨_, hmtimeNs, _, hmode, _, hflag, _, hstart, _, hsize, _, hcrc32, _, hblock, h⟩ := h
      injection h with h₁ h₂ h₃ h₄ h₅ h₆ h₇ h₈
      subst h₁ h₂ h₃ h₄ h₅ h₆ h₇ h₈
      exact ⟨hname, hmtimeNs, hmode, hflag, hstart, hsize, hcrc32, hblock⟩
    · cases h
  · intro h
    rw [h.name]
    simp only [bind_eq_ok_iff, intField_eq_ok_iff, rescue_eq_ok_iff, buildEntry_eq_ok_iff]
    exact ⟨_, h.mtimeNs, _, h.mode, _, h.flag, _, h.start, _, h.size, _, h.crc32, _,
      h.blockOffset, rfl⟩

theorem readEntry_eq_ok_iff {blockOffset : Int} {v : Json} {e : Entry} :
    readEntry blockOffset v = .ok e ↔ OfObject (DescribesEntry blockOffset) v e := by
  cases v <;> simp [readEntry, OfObject, readEntryFields_eq_ok_iff]

theorem requireField_eq_ok_iff {fields : Fields} {name : String} {u : Unit} :
    requireField fields name = .ok u ↔ ∃ v, Json.field? fields name = some v := by
  unfold requireField
  cases Json.field? fields name <;> simp

theorem required_and_carries_iff {fields : Fields} {name : String} {default n : Int} :
    (∃ v, Json.field? fields name = some v) ∧ Carries fields name default n ↔
      Json.field? fields name = some (.int n) := by
  unfold Carries
  cases Json.field? fields name <;> simp

theorem readFooterFields_eq_ok_iff {fields : Fields} {f : Footer} :
    readFooterFields fields = .ok f ↔ DescribesFooter fields f := by
  unfold readFooterFields
  simp only [bind_eq_ok_iff, requireField_eq_ok_iff, intField_eq_ok_iff, rescue_eq_ok_iff,
    buildFooter_eq_ok_iff]
  constructor
  · rintro ⟨-, hcount, -, hindex, -, hblock, _, hcount', _, hindex', _, hblock', _, hcrc32, h⟩
    injection h with h₁ h₂ h₃ h₄
    subst h₁ h₂ h₃ h₄
    exact ⟨required_and_carries_iff.1 ⟨hcount, hcount'⟩,
      required_and_carries_iff.1 ⟨hindex, hindex'⟩, required_and_carries_iff.1 ⟨hblock, hblock'⟩,
      hcrc32⟩
  · rintro ⟨hcount, hindex, hblock, hcrc32⟩
    exact ⟨(), ⟨_, hcount⟩, (), ⟨_, hindex⟩, (), ⟨_, hblock⟩, _, .inr hcount, _, .inr hindex, _,
      .inr hblock, _, hcrc32, rfl⟩

theorem readFooter_eq_ok_iff {v : Option Json} {footer : Option Footer} :
    readFooter v = .ok footer ↔
      match footer with
      | none => v = none ∨ v = some .null
      | some f => ∃ w, v = some w ∧ OfObject DescribesFooter w f := by
  unfold readFooter
  rcases v with _ | v
  · cases footer <;> simp
  · cases v <;> cases footer <;>
      simp [map_eq_ok_iff, readFooterFields_eq_ok_iff, OfObject]

theorem entryList_eq_ok_iff {fields : Fields} {items : List Json} :
    entryList fields = .ok items ↔
      Json.field? fields "entries" = none ∧ items = [] ∨
        Json.field? fields "entries" = some (.arr items) := by
  unfold entryList
  cases Json.field? fields "entries" with
  | none => simp [eq_comm]
  | some v => cases v <;> simp

theorem readBlockFields_eq_ok_iff {fields : Fields} {b : Block} :
    readBlockFields fields = .ok b ↔ DescribesBlock fields b := by
  unfold readBlockFields
  rw [bind_eq_ok_iff]
  simp only [intField_eq_ok_iff]
  constructor
  · rintro ⟨offset, hoffset, h⟩
    split at h
    · cases h
    · next hnonneg =>
      simp only [bind_eq_ok_iff, entryList_eq_ok_iff, readFooter_eq_ok_iff, mapM_eq_ok_iff,
        readEntry_eq_ok_iff] at h
      obtain ⟨items, hitems, footer, hfooter, entries, hentries, h⟩ := h
      cases h
      exact ⟨hoffset, Int.not_lt.1 hnonneg, ⟨items, hitems, hentries⟩, hfooter⟩
  · rintro ⟨hoffset, hnonneg, ⟨items, hitems, hentries⟩, hfooter⟩
    refine ⟨b.offset, hoffset, ?_⟩
    rw [if_neg (Int.not_lt.2 hnonneg)]
    simp only [bind_eq_ok_iff, entryList_eq_ok_iff, readFooter_eq_ok_iff, mapM_eq_ok_iff,
      readEntry_eq_ok_iff]
    exact ⟨items, hitems, b.footer, hfooter, b.entries, hentries, rfl⟩

theorem readBlock_eq_ok_iff {v : Json} {b : Block} :
    readBlock v = .ok b ↔ OfObject DescribesBlock v b := by
  cases v <;> simp [readBlock, OfObject, readBlockFields_eq_ok_iff]

/-- **A document is read as what it describes.** -/
theorem readBlocks_eq_ok_iff {v : Json} {blocks : List Block} :
    readBlocks v = .ok blocks ↔ Describes v blocks := by
  cases v with
  | obj fields =>
    simp only [readBlocks, Describes, OfObject, Json.obj.injEq, exists_eq_left']
    split
    · next items hitems => simp [hitems, mapM_eq_ok_iff, readBlock_eq_ok_iff]
    · next hnone => simpa using fun items hitems => absurd hitems (hnone items)
  | null | bool | int | float | str | arr => simp [readBlocks, Describes, OfObject]

/-! ## Dumps describe something -/

theorem exists_carries_iff {fields : Fields} {name : String} {default : Int} :
    (∃ n, Carries fields name default n) ↔ MayHave fields name IsInteger := by
  unfold Carries MayHave IsInteger
  cases Json.field? fields name with
  | none => simp
  | some v => simp

/-- The default must be a count, too. -/
theorem exists_carries_count_iff {fields : Fields} {name : String} {default : Int}
    (h : 0 ≤ default) :
    (∃ n : Nat, Carries fields name default n) ↔ MayHave fields name IsCount := by
  unfold Carries MayHave IsCount
  cases Json.field? fields name with
  | none => simpa using ⟨default.toNat, Int.toNat_of_nonneg h⟩
  | some v =>
    simp only [reduceCtorEq, false_and, false_or, Option.some.injEq, forall_eq']
    constructor
    · rintro ⟨n, rfl⟩
      exact ⟨n, rfl, Int.natCast_nonneg n⟩
    · rintro ⟨n, rfl, hn⟩
      exact ⟨n.toNat, by rw [Int.toNat_of_nonneg hn]⟩

theorem exists_required_count_iff {fields : Fields} {name : String} :
    (∃ n : Nat, Json.field? fields name = some (.int n)) ↔ Has fields name IsCount := by
  constructor
  · rintro ⟨n, h⟩
    exact ⟨_, h, n, rfl, Int.natCast_nonneg n⟩
  · rintro ⟨_, h, n, rfl, hn⟩
    exact ⟨n.toNat, by rw [h, Int.toNat_of_nonneg hn]⟩

theorem exists_name_iff {fields : Fields} {name : String} :
    (∃ t, Json.field? fields name = some (.str t) ∧ t ≠ []) ↔ Has fields name IsName := by
  constructor
  · rintro ⟨t, ht, hne⟩
    exact ⟨_, ht, t, rfl, hne⟩
  · rintro ⟨_, ht, t, rfl, hne⟩
    exact ⟨t, ht, hne⟩

theorem exists_ofObject_iff {α : Type} {R : Fields → α → Prop} {P : Fields → Prop}
    (h : ∀ fields, (∃ a, R fields a) ↔ P fields) (v : Json) :
    (∃ a, OfObject R v a) ↔ IsObject P v := by
  simp only [OfObject, IsObject, ← h]
  exact ⟨fun ⟨a, fields, hv, ha⟩ => ⟨fields, hv, a, ha⟩,
    fun ⟨fields, hv, a, ha⟩ => ⟨a, fields, hv, ha⟩⟩

theorem exists_forall₂_iff {α β : Type} {R : α → β → Prop} {items : List α} :
    (∃ results, List.Forall₂ R items results) ↔ ∀ item ∈ items, ∃ b, R item b := by
  induction items with
  | nil => exact ⟨fun _ => by simp, fun _ => ⟨[], .nil⟩⟩
  | cons item items ih =>
    rw [List.forall_mem_cons, ← ih]
    constructor
    · rintro ⟨_, _ | ⟨hb, hlater⟩⟩
      exact ⟨⟨_, hb⟩, _, hlater⟩
    · rintro ⟨⟨b, hb⟩, later, hlater⟩
      exact ⟨b :: later, .cons hb hlater⟩

theorem exists_describesEntry_iff {blockOffset : Int} (h : 0 ≤ blockOffset) (v : Json) :
    (∃ e, OfObject (DescribesEntry blockOffset) v e) ↔ IsEntry v := by
  refine exists_ofObject_iff (fun fields => ?_) v
  simp only [List.forall_mem_cons, List.not_mem_nil, false_implies, implies_true, and_true]
  constructor
  · rintro ⟨e, he⟩
    exact ⟨exists_name_iff.1 ⟨_, he.name, e.name_ne⟩,
      ⟨exists_carries_iff.1 ⟨_, he.mtimeNs⟩, exists_carries_iff.1 ⟨_, he.mode⟩,
        exists_carries_iff.1 ⟨_, he.flag⟩, exists_carries_iff.1 ⟨_, he.crc32⟩⟩,
      (exists_carries_count_iff le_rfl).1 ⟨_, he.start⟩,
      (exists_carries_count_iff le_rfl).1 ⟨_, he.size⟩,
      (exists_carries_count_iff h).1 ⟨_, he.blockOffset⟩⟩
  · rintro ⟨hname, ⟨hmtimeNs, hmode, hflag, hcrc32⟩, hstart, hsize, hblockOffset⟩
    obtain ⟨name, hname, hne⟩ := exists_name_iff.2 hname
    obtain ⟨mtimeNs, hmtimeNs⟩ := exists_carries_iff.2 hmtimeNs
    obtain ⟨mode, hmode⟩ := exists_carries_iff.2 hmode
    obtain ⟨flag, hflag⟩ := exists_carries_iff.2 hflag
    obtain ⟨crc32, hcrc32⟩ := exists_carries_iff.2 hcrc32
    obtain ⟨start, hstart⟩ := (exists_carries_count_iff le_rfl).2 hstart
    obtain ⟨size, hsize⟩ := (exists_carries_count_iff le_rfl).2 hsize
    obtain ⟨offset, hoffset⟩ := (exists_carries_count_iff h).2 hblockOffset
    exact ⟨⟨⟨name, mtimeNs, mode, flag, hne⟩, offset, start, size, crc32⟩,
      ⟨hname, hmtimeNs, hmode, hflag, hstart, hsize, hcrc32, hoffset⟩⟩

theorem exists_describesFooter_iff (v : Json) :
    (∃ f, OfObject DescribesFooter v f) ↔ IsFooter v := by
  refine exists_ofObject_iff (fun fields => ?_) v
  simp only [List.forall_mem_cons, List.not_mem_nil, false_implies, implies_true, and_true]
  constructor
  · rintro ⟨f, hf⟩
    exact ⟨⟨exists_required_count_iff.1 ⟨_, hf.entryCount⟩,
      exists_required_count_iff.1 ⟨_, hf.indexSize⟩,
      exists_required_count_iff.1 ⟨_, hf.blockSize⟩⟩, exists_carries_iff.1 ⟨_, hf.crc32⟩⟩
  · rintro ⟨⟨hentryCount, hindexSize, hblockSize⟩, hcrc32⟩
    obtain ⟨entryCount, hentryCount⟩ := exists_required_count_iff.2 hentryCount
    obtain ⟨indexSize, hindexSize⟩ := exists_required_count_iff.2 hindexSize
    obtain ⟨blockSize, hblockSize⟩ := exists_required_count_iff.2 hblockSize
    obtain ⟨crc32, hcrc32⟩ := exists_carries_iff.2 hcrc32
    exact ⟨⟨entryCount, indexSize, blockSize, crc32⟩,
      ⟨hentryCount, hindexSize, hblockSize, hcrc32⟩⟩

theorem exists_entries_iff {fields : Fields} {offset : Int} (h : 0 ≤ offset) :
    (∃ items entries, (Json.field? fields "entries" = none ∧ items = [] ∨
        Json.field? fields "entries" = some (.arr items)) ∧
      List.Forall₂ (OfObject (DescribesEntry offset)) items entries) ↔
      MayHave fields "entries" (IsListOf IsEntry) := by
  simp only [exists_and_left, exists_forall₂_iff, exists_describesEntry_iff h]
  unfold MayHave IsListOf
  cases Json.field? fields "entries" with
  | none => simp
  | some v => simp

theorem exists_footer_iff {fields : Fields} :
    (∃ footer : Option Footer, match footer with
      | none => Json.field? fields "footer" = none ∨ Json.field? fields "footer" = some .null
      | some f => ∃ v, Json.field? fields "footer" = some v ∧ OfObject DescribesFooter v f) ↔
      MayHave fields "footer" fun v => v = .null ∨ IsFooter v := by
  rw [Option.exists]
  unfold MayHave
  cases Json.field? fields "footer" with
  | none => simp
  | some v => simp [exists_describesFooter_iff]

theorem exists_describesBlock_iff (v : Json) : (∃ b, OfObject DescribesBlock v b) ↔ IsBlock v := by
  refine exists_ofObject_iff (fun fields => ?_) v
  constructor
  · rintro ⟨b, hoffset, hnonneg, ⟨items, hitems, hentries⟩, hfooter⟩
    rw [← Int.toNat_of_nonneg hnonneg] at hoffset
    exact ⟨(exists_carries_count_iff le_rfl).1 ⟨_, hoffset⟩,
      (exists_entries_iff hnonneg).1 ⟨items, b.entries, hitems, hentries⟩,
      exists_footer_iff.1 ⟨b.footer, hfooter⟩⟩
  · rintro ⟨hoffset, hentries, hfooter⟩
    obtain ⟨offset, hoffset⟩ := (exists_carries_count_iff le_rfl).2 hoffset
    have hnonneg : 0 ≤ (offset : Int) := Int.natCast_nonneg offset
    obtain ⟨items, entries, hitems, hentries⟩ := (exists_entries_iff hnonneg).2 hentries
    obtain ⟨footer, hfooter⟩ := exists_footer_iff.2 hfooter
    exact ⟨⟨offset, entries, footer⟩, hoffset, hnonneg, ⟨items, hitems, hentries⟩, hfooter⟩

/-- **The dumps are the documents that describe blocks.** -/
theorem exists_describes_iff (v : Json) : (∃ blocks, Describes v blocks) ↔ IsDump v := by
  refine exists_ofObject_iff (fun fields => ?_) v
  constructor
  · rintro ⟨blocks, items, hitems, hblocks⟩
    refine ⟨_, hitems, items, rfl, fun item hitem => (exists_describesBlock_iff item).1 ?_⟩
    exact exists_forall₂_iff.1 ⟨blocks, hblocks⟩ item hitem
  · rintro ⟨_, hitems, items, rfl, hall⟩
    obtain ⟨blocks, hblocks⟩ := exists_forall₂_iff.2 fun item hitem =>
      (exists_describesBlock_iff item).2 (hall item hitem)
    exact ⟨blocks, items, hitems, hblocks⟩

/-! ## Fields of no account -/

/-- Two values are objects with related fields, or the same. -/
def OnFields (R : Fields → Fields → Prop) (v v' : Json) : Prop :=
  v = v' ∨ ∃ fields fields', v = .obj fields ∧ v' = .obj fields' ∧ R fields fields'

/-- Two values are lists with related items, or the same. -/
def OnItems (R : Json → Json → Prop) (v v' : Json) : Prop :=
  v = v' ∨ ∃ items items', v = .arr items ∧ v' = .arr items' ∧ List.Forall₂ R items items'

def SameField (name : String) (fields fields' : Fields) : Prop :=
  Json.field? fields name = Json.field? fields' name

/-- A field is left out of both, or has related values. -/
def RelatedField (R : Json → Json → Prop) (name : String) (fields fields' : Fields) : Prop :=
  Option.Rel R (Json.field? fields name) (Json.field? fields' name)

def SameEntry : Json → Json → Prop := OnFields fun fields fields' =>
  ∀ name ∈ ["name", "mtime_ns", "mode", "flag", "start", "size", "crc32", "block_offset"],
    SameField name fields fields'

def SameFooter : Json → Json → Prop := OnFields fun fields fields' =>
  ∀ name ∈ ["entry_count", "index_size", "block_size", "crc32"], SameField name fields fields'

def SameBlock : Json → Json → Prop := OnFields fun fields fields' =>
  SameField "offset" fields fields' ∧ RelatedField (OnItems SameEntry) "entries" fields fields' ∧
    RelatedField SameFooter "footer" fields fields'

/-- The documents agree in all fields that the schema knows. Their other fields may differ. -/
def SameDump : Json → Json → Prop := OnFields (RelatedField (OnItems SameBlock) "blocks")

theorem readEntry_eq_of_same {v v' : Json} (h : SameEntry v v') (blockOffset : Int) :
    readEntry blockOffset v = readEntry blockOffset v' := by
  rcases h with rfl | ⟨fields, fields', rfl, rfl, h⟩
  · rfl
  · simp only [List.forall_mem_cons, SameField] at h
    simp only [readEntry, readEntryFields, intField, h]

theorem readFooterFields_eq_of_same {fields fields' : Fields}
    (h : ∀ name ∈ ["entry_count", "index_size", "block_size", "crc32"],
      SameField name fields fields') : readFooterFields fields = readFooterFields fields' := by
  simp only [List.forall_mem_cons, SameField] at h
  simp only [readFooterFields, requireField, intField, h]

theorem readFooter_eq_of_same {v v' : Option Json} (h : Option.Rel SameFooter v v') :
    readFooter v = readFooter v' := by
  cases h with
  | none => rfl
  | some h =>
    rcases h with rfl | ⟨fields, fields', rfl, rfl, h⟩
    · rfl
    · simp only [readFooter, readFooterFields_eq_of_same h]

/-- The entries of a block are the same list, or lists that are read alike. -/
theorem entryList_of_related {fields fields' : Fields}
    (h : RelatedField (OnItems SameEntry) "entries" fields fields') :
    entryList fields = entryList fields' ∨
      ∃ items items', entryList fields = .ok items ∧ entryList fields' = .ok items' ∧
        List.Forall₂ SameEntry items items' := by
  unfold entryList
  unfold RelatedField at h
  generalize Json.field? fields "entries" = v at h
  generalize Json.field? fields' "entries" = v' at h
  cases h with
  | none => exact .inl rfl
  | some h =>
    rcases h with rfl | ⟨items, items', rfl, rfl, h⟩
    · exact .inl rfl
    · exact .inr ⟨items, items', rfl, rfl, h⟩

theorem readBlock_eq_of_same {v v' : Json} (h : SameBlock v v') : readBlock v = readBlock v' := by
  rcases h with rfl | ⟨fields, fields', rfl, rfl, hoffset, hentries, hfooter⟩
  · rfl
  · have hoffset : intField fields "offset" 0 = intField fields' "offset" 0 := by
      unfold SameField at hoffset
      simp only [intField, hoffset]
    simp only [readBlock, readBlockFields, hoffset, readFooter_eq_of_same hfooter]
    rcases entryList_of_related hentries with h | ⟨items, items', h, h', hitems⟩
    · rw [h]
    · rw [h, h']
      have hread : ∀ offset, items.mapM (readEntry offset) = items'.mapM (readEntry offset) :=
        fun offset => mapM_eq_of_forall₂ (hitems.imp fun _ _ h => readEntry_eq_of_same h offset)
      simp only [bind, Except.bind, hread]

/-- **Only the fields of the schema count.** -/
theorem readBlocks_eq_of_same {v v' : Json} (h : SameDump v v') :
    readBlocks v = readBlocks v' := by
  rcases h with rfl | ⟨fields, fields', rfl, rfl, h⟩
  · rfl
  · simp only [readBlocks]
    unfold RelatedField at h
    generalize Json.field? fields "blocks" = v at h
    generalize Json.field? fields' "blocks" = v' at h
    cases h with
    | none => rfl
    | some h =>
      rcases h with rfl | ⟨items, items', rfl, rfl, h⟩
      · rfl
      · exact mapM_eq_of_forall₂ (h.imp fun _ _ h => readBlock_eq_of_same h)

/-! ## What is raised -/

/-- What is raised, if anything is, is a flaw. -/
def RaisesFlaws {α : Type} (x : Except Raised α) : Prop :=
  ∀ r, x = .error r → ∃ flaw, r = .flaw flaw

namespace RaisesFlaws

variable {α β : Type}

theorem ok (a : α) : RaisesFlaws (.ok a) := nofun

theorem flaw (f : Flaw) : RaisesFlaws (.error (.flaw f) : Except Raised α) :=
  fun _ h => ⟨f, (Except.error.inj h).symm⟩

theorem bind {x : Except Raised α} {f : α → Except Raised β} (hx : RaisesFlaws x)
    (hf : ∀ a, RaisesFlaws (f a)) : RaisesFlaws (x >>= f) := by
  intro r h
  rcases bind_eq_error_iff.1 h with h | ⟨a, -, h⟩
  · exact hx r h
  · exact hf a r h

theorem mapM {f : α → Except Raised β} (h : ∀ a, RaisesFlaws (f a)) (items : List α) :
    RaisesFlaws (items.mapM f) := by
  induction items with
  | nil => exact .ok []
  | cons a items ih =>
    rw [List.mapM_cons]
    exact (h a).bind fun b => ih.bind fun later => .ok (b :: later)

/-- The error of a record goes no further than where it is taken for a flaw. -/
theorem rescue (flawOf : Block.Flaw → Flaw) (x : Except Raised α) :
    RaisesFlaws (rescue flawOf x) := by
  rcases x with (f | error) | a
  · exact .flaw f
  · exact .flaw (flawOf error)
  · exact .ok a

theorem intField (fields : Fields) (name : String) (default : Int) :
    RaisesFlaws (intField fields name default) := by
  unfold Dump.intField
  split
  · exact .ok default
  · exact .ok _
  · exact .flaw _

theorem requireField (fields : Fields) (name : String) :
    RaisesFlaws (requireField fields name) := by
  unfold Dump.requireField
  split
  · exact .ok ()
  · exact .flaw _

theorem readEntry (blockOffset : Int) (v : Json) : RaisesFlaws (readEntry blockOffset v) := by
  unfold Dump.readEntry
  split
  · unfold readEntryFields
    split
    · exact .bind (intField _ _ _) fun _ => .bind (intField _ _ _) fun _ =>
        .bind (intField _ _ _) fun _ => .bind (intField _ _ _) fun _ =>
          .bind (intField _ _ _) fun _ => .bind (intField _ _ _) fun _ => rescue _ _
    · exact .flaw _
  · exact .flaw _

theorem readFooter (v : Option Json) : RaisesFlaws (readFooter v) := by
  unfold Dump.readFooter
  split
  · exact .ok none
  · exact .ok none
  · rename_i fields
    have hfields : RaisesFlaws (readFooterFields fields) :=
      .bind (requireField _ _) fun _ => .bind (requireField _ _) fun _ =>
        .bind (requireField _ _) fun _ => rescue _ _
    exact hfields.bind fun f => .ok (some f)
  · exact .flaw _

theorem entryList (fields : Fields) : RaisesFlaws (entryList fields) := by
  unfold Dump.entryList
  split
  · exact .ok []
  · exact .ok _
  · exact .flaw _

theorem readBlock (v : Json) : RaisesFlaws (readBlock v) := by
  unfold Dump.readBlock
  split
  · unfold readBlockFields
    refine .bind (intField _ _ _) fun offset => ?_
    split
    · exact .flaw _
    · exact .bind (entryList _) fun items => .bind (readFooter _) fun footer =>
        .bind (mapM (readEntry offset) items) fun entries => .ok _
  · exact .flaw _

/-- **Reading a dump raises nothing but flaws.** -/
theorem readBlocks (v : Json) : RaisesFlaws (readBlocks v) := by
  unfold Dump.readBlocks
  split
  · split
    · exact mapM readBlock _
    · exact .flaw _
  · exact .flaw _

end RaisesFlaws

/-! ## The reader and the schema -/

/-- **The reader accepts the dumps and no other documents,** of which it raises a flaw. -/
theorem readBlocks_iff_schema (v : Json) :
    ((∃ blocks, readBlocks v = .ok blocks) ∨ ∃ flaw, readBlocks v = .error (.flaw flaw)) ∧
      ((∃ blocks, readBlocks v = .ok blocks) ↔ IsDump v) ∧
        (∀ blocks, readBlocks v = .ok blocks ↔ Describes v blocks) ∧
          ∀ v', SameDump v v' → readBlocks v = readBlocks v' := by
  refine ⟨?_, ?_, fun blocks => readBlocks_eq_ok_iff, fun v' h => readBlocks_eq_of_same h⟩
  · cases h : readBlocks v with
    | ok blocks => exact .inl ⟨blocks, rfl⟩
    | error r =>
      obtain ⟨flaw, rfl⟩ := RaisesFlaws.readBlocks v r h
      exact .inr ⟨flaw, rfl⟩
  · simp only [readBlocks_eq_ok_iff]
    exact exists_describes_iff v

-- A name that is half of a surrogate pair is carried as it is.
example :
    readBlocks (.obj [("blocks", .arr [.obj [("entries",
      .arr [.obj [("name", .str [0xD800]), ("mode", .int 0o644)]])]])]) =
    .ok [⟨0, [⟨⟨[0xD800], 0, 0o644, 0, List.cons_ne_nil _ _⟩, 0, 0, 0, 0⟩], none⟩] := by
  cbv

end ArchiveIndex.Dump
