import ArchiveIndex.Dump.Load
import ArchiveIndex.Dump.Writer
import ArchiveIndex.Proofs.Dump.Schema
import ArchiveIndex.Proofs.Json.Documents
import ArchiveIndex.Proofs.Text.Encoding
import ArchiveIndex.Proofs.Text.Proper

/-!
# Loading a written dump

**Theorem (`load_written`).** Blocks that are written to a file are loaded from it, in whatever
layout, with any line ending, and with or without escapes for characters outside ASCII. Their names
are strings, their offsets must not be negative and their integers not be too long.

Each stage of the loader undoes one of the writer: the bytes are decoded as the text, its lines
are read back because no carriage return stands in them, the document is read back because it is
plain, and it describes the blocks.
-/

namespace ArchiveIndex

/-! ## Integers -/

/-- The integers that are written for an entry. -/
def Entry.integers (e : Entry) : List Int :=
  [e.mtimeNs, e.mode, e.flag, e.blockOffset, e.start, e.size, e.crc32]

/-- The integers that are written for a footer. -/
def Footer.integers (f : Footer) : List Int := [f.entryCount, f.indexSize, f.blockSize, f.crc32]

/-- The integers that are written for a block. -/
def Block.integers (b : Block) : List Int :=
  b.offset :: (b.footer.toList.flatMap Footer.integers ++ b.entries.flatMap Entry.integers)

namespace Dump

open Json (Plain)

/-- An integer has no more digits than a dump may hold. -/
def Fits (n : Int) : Prop := (Numeral.ofNat n.natAbs).length ≤ digitLimit

instance : DecidablePred Fits := fun _ => inferInstanceAs (Decidable (_ ≤ _))

/-! ## Plain documents -/

/-- An object is plain if its values are and its names are different strings. -/
theorem plain_obj {fields : Fields} (names : List String)
    (hnames : fields.map (·.1) = names.map Text.ofString) (hdistinct : names.Nodup)
    (hvalues : ∀ x ∈ fields, Plain digitLimit x.2) : Plain digitLimit (.obj fields) := by
  refine .obj (fun x hx => ?_) hvalues ?_
  · obtain ⟨name, -, hname⟩ := List.mem_map.1 (hnames ▸ List.mem_map_of_mem hx)
    exact hname ▸ Text.proper_ofString name
  · rw [hnames]
    exact hdistinct.map Text.ofString_injective

theorem plain_ofEntry {e : Entry} (hname : e.name.Proper) (h : ∀ n ∈ e.integers, Fits n) :
    Plain digitLimit (ofEntry e) := by
  simp only [Entry.integers, List.forall_mem_cons] at h
  obtain ⟨hmtimeNs, hmode, hflag, hblockOffset, hstart, hsize, hcrc32, -⟩ := h
  refine plain_obj ["name", "mtime_ns", "mode", "flag", "block_offset", "start", "size", "crc32"]
    rfl (by decide) ?_
  simp only [List.forall_mem_cons]
  exact ⟨.str hname, .int hmtimeNs, .int hmode, .int hflag,
    .int hblockOffset, .int hstart, .int hsize, .int hcrc32, by simp⟩

theorem plain_ofFooter {f : Footer} (h : ∀ n ∈ f.integers, Fits n) :
    Plain digitLimit (ofFooter f) := by
  simp only [Footer.integers, List.forall_mem_cons] at h
  obtain ⟨hentryCount, hindexSize, hblockSize, hcrc32, -⟩ := h
  refine plain_obj ["entry_count", "index_size", "block_size", "crc32"] rfl (by decide) ?_
  simp only [List.forall_mem_cons]
  exact ⟨.int hentryCount, .int hindexSize, .int hblockSize, .int hcrc32, by simp⟩

theorem plain_ofBlock {b : Block} (hnames : ∀ e ∈ b.entries, e.name.Proper)
    (h : ∀ n ∈ b.integers, Fits n) : Plain digitLimit (ofBlock b) := by
  simp only [Block.integers, List.forall_mem_cons, List.forall_mem_append, List.mem_flatMap,
    Option.mem_toList, forall_exists_index, and_imp] at h
  obtain ⟨hoffset, hfooter, hentries⟩ := h
  refine plain_obj ["offset", "footer", "entries"] rfl (by decide) ?_
  simp only [List.forall_mem_cons]
  refine ⟨.int hoffset, ?_, .arr ?_, by simp⟩
  · show Plain digitLimit ((b.footer.map ofFooter).getD .null)
    cases hb : b.footer with
    | none => exact .null
    | some f => exact plain_ofFooter fun n hn => hfooter n f hb hn
  · rw [List.forall_mem_map]
    exact fun e he => plain_ofEntry (hnames e he) fun n hn => hentries n e he hn

theorem plain_ofBlocks {blocks : List Block}
    (hnames : ∀ b ∈ blocks, ∀ e ∈ b.entries, e.name.Proper)
    (h : ∀ b ∈ blocks, ∀ n ∈ b.integers, Fits n) : Plain digitLimit (ofBlocks blocks) := by
  refine plain_obj ["blocks"] rfl (by decide) ?_
  rw [List.forall_mem_singleton]
  refine .arr ?_
  rw [List.forall_mem_map]
  exact fun b hb => plain_ofBlock (hnames b hb) (h b hb)

/-! ## Described blocks -/

theorem field?_cons (name name' : String) (value : Json) (fields : Fields) :
    Json.field? (field name value :: fields) name' =
      if name = name' then some value else Json.field? fields name' := by
  simp only [Json.field?, field, List.find?_cons, Text.ofString_injective.eq_iff]
  split_ifs with h <;> simp [h]

theorem describes_ofEntry (blockOffset : Int) (e : Entry) :
    OfObject (DescribesEntry blockOffset) (ofEntry e) e := by
  refine ⟨_, rfl, ?_⟩
  constructor <;> simp [field?_cons, Carries]

theorem describes_ofFooter (f : Footer) : OfObject DescribesFooter (ofFooter f) f := by
  refine ⟨_, rfl, ?_⟩
  constructor <;> simp [field?_cons, Carries]

theorem describes_ofBlock {b : Block} (h : 0 ≤ b.offset) :
    OfObject DescribesBlock (ofBlock b) b := by
  refine ⟨_, rfl, ?_⟩
  constructor
  · simp [field?_cons, Carries]
  · exact h
  · refine ⟨b.entries.map ofEntry, ?_, ?_⟩
    · simp [field?_cons]
    · rw [List.forall₂_map_left_iff, List.forall₂_same]
      exact fun e _ => describes_ofEntry b.offset e
  · cases hb : b.footer with
    | none => simp [field?_cons]
    | some f => simpa [field?_cons] using describes_ofFooter f

theorem describes_ofBlocks {blocks : List Block} (h : ∀ b ∈ blocks, 0 ≤ b.offset) :
    Describes (ofBlocks blocks) blocks := by
  refine ⟨_, rfl, blocks.map ofBlock, ?_, ?_⟩
  · simp [field?_cons]
  · rw [List.forall₂_map_left_iff, List.forall₂_same]
    exact fun b hb => describes_ofBlock (h b hb)

/-! ## Loading -/

/-- The bytes of a file that a document was written to. -/
def written (l : Json.Layout) (ending : Newline.Ending) (v : Json) : List UInt8 :=
  Utf8.encode (ending.write (Json.writeDocument l v))

/-- The text of a file is the document that was written to it. -/
theorem readText_written {v : Json} (hv : Plain digitLimit v) (l : Json.Layout)
    (ending : Newline.Ending) :
    readText (written l ending v) = .ok (Json.writeDocument l v) := by
  have hlines := Newline.unify_write ending (Json.cr_not_mem_write hv l 0)
  rw [readText, written, Utf8.decode_encode]
  exact congrArg Except.ok hlines

/-- **A plain document is loaded as it would be read without a file.** -/
theorem load_plain {v : Json} (hv : Plain digitLimit v) (l : Json.Layout)
    (ending : Newline.Ending) :
    load (written l ending v) = (readBlocks v).mapError .layout := by
  rw [load, readText_written hv]
  show (Json.read (some digitLimit) (Json.writeDocument l v)).mapError _ >>= _ = _
  rw [Json.read_writeDocument hv]
  rfl

/-- **Blocks that were written are loaded.** The fields may have been written in another order, and
others among them. -/
theorem load_written {blocks : List Block}
    (hnames : ∀ b ∈ blocks, ∀ e ∈ b.entries, e.name.Proper) (hoffset : ∀ b ∈ blocks, 0 ≤ b.offset)
    (hfits : ∀ b ∈ blocks, ∀ n ∈ b.integers, Fits n) (l : Json.Layout) (ending : Newline.Ending) :
    load (written l ending (ofBlocks blocks)) = .ok blocks ∧
      ∀ v, Plain digitLimit v → SameDump (ofBlocks blocks) v →
        load (written l ending v) = .ok blocks := by
  have hread : readBlocks (ofBlocks blocks) = .ok blocks :=
    readBlocks_eq_ok_iff.2 (describes_ofBlocks hoffset)
  constructor
  · rw [load_plain (plain_ofBlocks hnames hfits), hread]
    rfl
  · intro v hv hsame
    rw [load_plain hv, ← readBlocks_eq_of_same hsame, hread]
    rfl

/-- A block with an entry whose name needs every kind of escape, and one without a footer. -/
def awkwardBlocks : List Block :=
  [{ offset := 7
     entries :=
      [{ name := .ofString "\"\\/\n\x0d\t\x00\x0c\x08\x1f\x7fé\u2028\uFFFD😀"
         mtimeNs := -1000000000000000000001
         mode := -1
         flag := 1
         name_ne := by decide
         blockOffset := 12345678901234567890
         start := 0
         size := 10
         crc32 := -5 }]
     footer := some ⟨2, 60, 90, -1⟩ },
    { offset := 0, entries := [], footer := none }]

theorem load_written_awkward :
    (∀ b ∈ awkwardBlocks, ∀ e ∈ b.entries, e.name.Proper) ∧
      (∀ b ∈ awkwardBlocks, 0 ≤ b.offset) ∧ (∀ b ∈ awkwardBlocks, ∀ n ∈ b.integers, Fits n) ∧
      load (written ⟨.indented 2, true⟩ .crlf (ofBlocks awkwardBlocks)) = .ok awkwardBlocks :=
  have hnames : ∀ b ∈ awkwardBlocks, ∀ e ∈ b.entries, e.name.Proper := by
    simp [awkwardBlocks, Text.proper_ofString]
  have hoffset : ∀ b ∈ awkwardBlocks, 0 ≤ b.offset := by decide
  have hfits : ∀ b ∈ awkwardBlocks, ∀ n ∈ b.integers, Fits n := by decide
  ⟨hnames, hoffset, hfits, (load_written hnames hoffset hfits ⟨.indented 2, true⟩ .crlf).1⟩

end Dump
end ArchiveIndex
