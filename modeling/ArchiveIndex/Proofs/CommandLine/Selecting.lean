import ArchiveIndex.Proofs.CommandLine.Outcomes
import ArchiveIndex.Proofs.CommandLine.Parsing
import ArchiveIndex.Proofs.Index.Agreement
import ArchiveIndex.Proofs.Path

/-!
# Listing what a pattern selects

A listing with a pattern is the listing without it, less the lines of the entries whose names the
pattern does not select.

**Theorem (`glob_filters_listing`).** This holds of every dump whose footers agree and whose modes
can be shown, for both kinds of listing and for every pattern but the empty one, as long as the
listing without the pattern is written to its end. It is, unless a name has a surrogate. Otherwise
each of the two listings ends at the first of its own entries with such a name. A text that is no
pattern is refused, and nothing is written. The empty pattern is taken for none, although it is a
pattern that selects no name.

The two runs build the same index and differ in the entries that they select from it, so the
theorem is about one list of entries with their lines, filtered or not.
-/

namespace ArchiveIndex.CommandLine

/-! ## Filtering lines -/

/-- Entries with their lines as they are written. -/
def Shown (shown : List (Entry × String)) : Prop :=
  ∀ p ∈ shown, Listing.line p.1 = .ok (Text.ofString p.2)

theorem exists_shown {entries : List Entry} (h : ∀ e ∈ entries, Listable e) :
    ∃ shown, Shown shown ∧ shown.map (·.1) = entries := by
  induction entries with
  | nil => exact ⟨[], by simp [Shown], rfl⟩
  | cons e entries ih =>
    obtain ⟨he, hentries⟩ := List.forall_mem_cons.1 h
    obtain ⟨line, hline⟩ := exists_entryLine_iff.2 he
    obtain ⟨shown, hshown, hmap⟩ := ih hentries
    exact ⟨(e, line) :: shown, List.forall_mem_cons.2 ⟨entryLine_eq_ok_iff.1 hline, hshown⟩,
      by simp [hmap]⟩

theorem Shown.filter {shown : List (Entry × String)} (h : Shown shown)
    (keep : Entry → Bool) : Shown (shown.filter fun p => keep p.1) :=
  fun p hp => h p (List.mem_filter.1 hp).1

/-- The lines that stand beside entries are what is written for them. -/
theorem Shown.written {shown : List (Entry × String)} (h : Shown shown) {o : Outcome}
    (hwrites : Writes ((shown.map (·.1)).map entryLine) o) :
    o.ending = .success ∧ o.output = shown.map (·.2) := by
  have hlines : (shown.map (·.1)).map entryLine = (shown.map (·.2)).map .ok := by
    rw [List.map_map, List.map_map]
    exact List.map_congr_left fun p hp => entryLine_eq_ok_iff.2 (h p hp)
  rw [hlines] at hwrites
  exact hwrites.of_lines

theorem select_eq_map_filter {index : Index} {shown : List (Entry × String)}
    (h : shown.map (·.1) = index.entries) (r : Glob.Regex) :
    index.select r = (shown.filter fun p => r.selects p.1.name).map (·.1) := by
  rw [Index.select, ← h, List.filter_map]
  rfl

/-- What can be built of blocks whose modes can be shown can be shown. -/
theorem showable_of_build {kind : Kind} {blocks : List Block} {index : Index}
    (hindex : (Index.build kind blocks).result = .ok index)
    (hmodes : ∀ b ∈ blocks, ∀ e ∈ b.entries, Listing.ModeInRange e.mode) :
    ∀ e ∈ index.entries, Listing.Showable e := by
  intro e he _
  obtain ⟨b, hb, heb⟩ := Index.mem_blocks_of_build hindex he
  exact hmodes b hb e heb

/-! ## Selecting -/

theorem compile_empty : Glob.compile [] = .ok [] := by cbv

/-- The empty pattern selects no name of an entry. -/
theorem selects_empty (e : Entry) : Glob.Regex.selects [] e.name = false := by
  cases hpath : Path.normalize e.name with
  | nil => exact absurd (Path.normalize_eq_nil_iff.1 hpath) e.name_ne
  | cons p rest =>
    rw [Glob.Regex.selects, hpath]
    rfl

theorem selection_of_ne {pattern : Text} (h : pattern ≠ []) (index : Index) :
    selection index (some pattern) = index.glob pattern := by
  unfold selection
  split
  · simp at *
  · rename_i heq
    exact absurd (Option.some.inj heq) h
  · rename_i heq
    rw [Option.some.inj heq]

/-- What a listing selects by a pattern; the empty pattern selects as no pattern does. -/
theorem selection_of_compiled {pattern : Text} {r : Glob.Regex}
    (h : Glob.compile pattern = .ok r) (index : Index) :
    selection index (some pattern) =
      .ok (if pattern = [] then index.entries else index.select r) := by
  by_cases hempty : pattern = []
  · rw [if_pos hempty, hempty]
    rfl
  · rw [if_neg hempty, selection_of_ne hempty, Index.glob, h]
    rfl

/-- A pattern that is refused plans nothing; it is not the empty one, which can be compiled. -/
theorem not_plans_of_rejected {dump pattern : Text} {all : Bool} {blocks : List Block}
    {rejection : Glob.Rejection} (h : Glob.compile pattern = .error rejection) (plan : Plan) :
    ¬ (Command.list dump all (some pattern)).Plans blocks plan := by
  rintro ⟨entries, ⟨index, -, hentries⟩, -⟩
  have hne : pattern ≠ [] := by
    intro hempty
    rw [hempty, compile_empty] at h
    simp at h
  rw [selection_of_ne hne, Index.glob, h] at hentries
  simp [Except.map] at hentries

/-- **A pattern filters a listing.** Take two command lines that ask for the same listing of a
dump, one without a pattern and one with a pattern. Without it the lines of the entries of the index
are written, and with it the lines of those whose names the pattern selects, or all of them if it is
empty; either run breaks off at a name with a surrogate. Where no entry of the index has such a
name, the lines with the pattern are those without it whose entries are selected. A pattern that is
refused writes nothing. -/
theorem glob_filters_listing {release : Release} {folder : Folder} {plain globbed : List Text}
    {verbose verbose' all : Bool} {dump pattern : Text} {blocks : List Block}
    (hplain : Asks release folder plain ⟨verbose, .list dump all none⟩ blocks)
    (hglobbed : Asks release folder globbed ⟨verbose', .list dump all (some pattern)⟩ blocks)
    (hfooters : ∀ b ∈ blocks, b.mismatch? = none)
    (hmodes : ∀ b ∈ blocks, ∀ e ∈ b.entries, Listing.ModeInRange e.mode) :
    ∃ index, (Index.build (listedKind all) blocks).result = .ok index ∧
      Writes (index.entries.map entryLine) (runIn release folder plain) ∧
      (∀ r, Glob.compile pattern = .ok r →
        Writes ((if pattern = [] then index.entries else index.select r).map entryLine)
          (runIn release folder globbed)) ∧
      ((∀ e ∈ index.entries, e.name.Proper) →
        ∃ shown, Shown shown ∧ shown.map (·.1) = index.entries ∧
          (runIn release folder plain).ending = .success ∧
          (runIn release folder plain).output = shown.map (·.2) ∧
          ∀ r, Glob.compile pattern = .ok r →
            (runIn release folder globbed).ending = .success ∧
              (runIn release folder globbed).output =
                if pattern = [] then shown.map (·.2)
                else (shown.filter fun p => r.selects p.1.name).map (·.2)) ∧
      ∀ rejection, Glob.compile pattern = .error rejection →
        (runIn release folder globbed).ending = .refusal ∧
          (runIn release folder globbed).output = [] := by
  obtain ⟨index, hindex⟩ := Index.exists_build hfooters (listedKind all)
  rw [runIn_of_asks hplain, runIn_of_asks hglobbed]
  have hall : Writes (index.entries.map entryLine)
      ((Command.list dump all none).run verbose blocks) :=
    writes_run (plans_of_selects ⟨index, hindex, rfl⟩) verbose
  have hselected : ∀ r, Glob.compile pattern = .ok r →
      Writes ((if pattern = [] then index.entries else index.select r).map entryLine)
        ((Command.list dump all (some pattern)).run verbose' blocks) := fun r hr =>
    writes_run (plans_of_selects ⟨index, hindex, selection_of_compiled hr index⟩) verbose'
  refine ⟨index, hindex, hall, hselected, fun hnames => ?_, fun rejection hr => ?_⟩
  · obtain ⟨shown, hshown, hmap⟩ := exists_shown fun e he =>
      ⟨showable_of_build hindex hmodes e he, hnames e he⟩
    rw [← hmap] at hall
    obtain ⟨hending, houtput⟩ := hshown.written hall
    refine ⟨shown, hshown, hmap, hending, houtput, fun r hr => ?_⟩
    have hglob := hselected r hr
    by_cases hempty : pattern = []
    · rw [if_pos hempty, ← hmap] at hglob
      rw [if_pos hempty]
      exact hshown.written hglob
    · rw [if_neg hempty, select_eq_map_filter hmap] at hglob
      rw [if_neg hempty]
      exact (hshown.filter fun e => r.selects e.name).written hglob
  · obtain ⟨log, message, hrun⟩ := run_of_not_plans (not_plans_of_rejected hr) verbose'
    rw [hrun]
    exact ⟨rfl, rfl⟩

/-- A block with a deletion, and three names of which one ends in a separator. -/
def mixed : List Block :=
  [⟨0, [Index.bareEntry "docs/a" 0 (by decide), Index.bareEntry "docs/b/" 0 (by decide),
      Index.bareEntry "docs/a" 1 (by decide), entryOfMode 'b' 0o644], some ⟨4, 0, 0, 0⟩⟩]

/-- Of the four lines of the block the pattern leaves one, on the same command line but for the
pattern. -/
theorem glob_filters_listing_mixed :
    Asks .later (folderOf mixed) ["list", "--all", "d"] ⟨false, .list "d" true none⟩ mixed ∧
      Asks .later (folderOf mixed) ["list", "--all", "--glob=*/b", "d"]
        ⟨false, .list "d" true (some "*/b")⟩ mixed ∧
      (∀ b ∈ mixed, b.mismatch? = none) ∧
      (∀ b ∈ mixed, ∀ e ∈ b.entries, Listing.ModeInRange e.mode) ∧
      (runIn .later (folderOf mixed) ["list", "--all", "d"]).output.length = 4 ∧
      (runIn .later (folderOf mixed) ["list", "--all", "--glob=*/b", "d"]).output =
        ["----------\t0\t00000000\tdocs/b/"] := by
  have hnames : ∀ b ∈ mixed, ∀ e ∈ b.entries, e.name.Proper := by
    simp [mixed, proper_entryOfMode, Index.bareEntry, Text.proper_ofString]
  have hplain : Asks .later (folderOf mixed) ["list", "--all", "d"]
      ⟨false, .list "d" true none⟩ mixed :=
    asks_folderOf hnames (by decide) (by decide) (by cbv) rfl
  have hglobbed : Asks .later (folderOf mixed) ["list", "--all", "--glob=*/b", "d"]
      ⟨false, .list "d" true (some "*/b")⟩ mixed :=
    asks_folderOf hnames (by decide) (by decide)
      (parse_globArgument .later "*/b" (by decide)).2 rfl
  have hfooters : ∀ b ∈ mixed, b.mismatch? = none := by decide
  have hmodes : ∀ b ∈ mixed, ∀ e ∈ b.entries, Listing.ModeInRange e.mode := by decide
  obtain ⟨index, hindex, -, hselected, hfiltered, -⟩ :=
    glob_filters_listing hplain hglobbed hfooters hmodes
  obtain ⟨built, r, hbuilt, hr, hfour, hline⟩ : ∃ built r,
      (Index.build .complete mixed).result = .ok built ∧ Glob.compile "*/b" = .ok r ∧
        built.entries.length = 4 ∧
        (built.select r).map entryLine = ["----------\t0\t00000000\tdocs/b/"].map .ok :=
    ⟨_, _, by cbv, by cbv, by cbv, by cbv⟩
  obtain rfl : index = built := Except.ok.inj (hindex.symm.trans hbuilt)
  refine ⟨hplain, hglobbed, hfooters, hmodes, ?_, ?_⟩
  · obtain ⟨shown, -, hmap, -, houtput, -⟩ := hfiltered fun e he => by
      obtain ⟨b, hb, heb⟩ := Index.mem_blocks_of_build hindex he
      exact hnames b hb e heb
    rw [houtput, List.length_map, ← hfour, ← hmap, List.length_map]
  · have hwrites := hselected r hr
    rw [if_neg (by decide), hline] at hwrites
    exact hwrites.of_lines.2

/-- A block with one entry. -/
def lone : Block := ⟨0, [entryOfMode 'a' 0o644], none⟩

/-- **The empty pattern does not filter.** It is a pattern and does not select the name of the
entry, but the entry is listed. -/
theorem empty_pattern_lists :
    ∃ r, Asks .later (folderOf [lone]) ["list", "--glob", "", "d"]
        ⟨false, .list "d" false (some "")⟩ [lone] ∧
      Glob.compile "" = .ok r ∧ (∀ e ∈ lone.entries, r.selects e.name = false) ∧
      (runIn .later (folderOf [lone]) ["list", "--glob", "", "d"]).output =
        ["-rw-r--r--\t0\t00000000\ta"] := by
  have hnames : ∀ b ∈ [lone], ∀ e ∈ b.entries, e.name.Proper := by
    simp [lone, proper_entryOfMode]
  have hasks : Asks .later (folderOf [lone]) ["list", "--glob", "", "d"]
      ⟨false, .list "d" false (some "")⟩ [lone] :=
    asks_folderOf hnames (by decide) (by decide) (by cbv) rfl
  refine ⟨[], hasks, compile_empty, fun e _ => selects_empty e, ?_⟩
  rw [runIn_of_asks hasks]
  cbv

end ArchiveIndex.CommandLine
