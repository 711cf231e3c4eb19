import ArchiveIndex.CommandLine.Run
import ArchiveIndex.Proofs.Dump.Loading
import ArchiveIndex.Proofs.Listing
import ArchiveIndex.Proofs.Text.Proper

/-!
# How a command ends

A command on a dump that can be loaded writes everything it has to say and succeeds, or it writes
nothing and tells of an error with status 2. There are two exceptions, a mode that cannot be shown
and a surrogate that cannot be written. They are met one line at a time, and by then the lines
before have been written: the command breaks off.

**Theorem (`all_or_nothing_iff`).** A command is all or nothing exactly if all its lines can be
written. Of a listing this is so if every entry that it selects can be shown and has a name without
surrogates, and of a report if the path of the dump has no surrogates. A command that is not all or
nothing has written the lines before the first that cannot be written.

What a command has to say is a plan: its lines in order, each with the error in its place if it
cannot be written (`Command.Plans`). What becomes of a plan is said once for all commands, by
`Writes`.
-/

namespace ArchiveIndex

namespace CommandLine

open Listing (Showable)

/-! ## Lines that can be written -/

theorem encodeLine_eq_ok_iff {line : Text} {s : String} :
    encodeLine line = .ok s ↔ line = Text.ofString s := by
  rw [encodeLine, mapError_eq_ok_iff, Text.toString?_eq_ok_iff]

theorem exists_encodeLine_iff {line : Text} : (∃ s, encodeLine line = .ok s) ↔ line.Proper := by
  simp only [encodeLine, mapError_eq_ok_iff]
  exact Text.exists_toString?_iff

/-- What is written for an entry is its line. -/
theorem entryLine_eq_ok_iff {e : Entry} {s : String} :
    entryLine e = .ok s ↔ Listing.line e = .ok (Text.ofString s) := by
  rw [entryLine, bind_eq_ok_iff]
  simp only [mapError_eq_ok_iff, encodeLine_eq_ok_iff, exists_eq_right]

/-- An entry whose line can be written: it can be shown, and its name has no surrogates. -/
def Listable (e : Entry) : Prop := Showable e ∧ e.name.Proper

theorem exists_entryLine_iff {e : Entry} : (∃ s, entryLine e = .ok s) ↔ Listable e := by
  simp only [entryLine_eq_ok_iff]
  constructor
  · rintro ⟨s, hline⟩
    exact ⟨Listing.exists_line_iff.1 ⟨_, hline⟩,
      (Listing.proper_line_iff hline).1 (Text.proper_ofString s)⟩
  · rintro ⟨hshow, hname⟩
    obtain ⟨text, hline⟩ := Listing.exists_line_iff.2 hshow
    obtain ⟨s, hs⟩ := Text.exists_toString?_iff.2 ((Listing.proper_line_iff hline).2 hname)
    exact ⟨s, by rw [hline, Text.toString?_eq_ok_iff.1 hs]⟩

/-! ## Writing what was planned -/

/-- Lines to be written, each with the error in its place if it cannot be. -/
abbrev Plan := List (Except Failure String)

/-- What becomes of a plan: all its lines are written, or those before the first that cannot be. -/
inductive Writes (plan : Plan) (o : Outcome) : Prop
  | all : plan = o.output.map .ok → o.ending = .success → Writes plan o
  | upTo (failure : Failure) (after : Plan) : plan = o.output.map .ok ++ .error failure :: after →
      o.ending = .failure failure → Writes plan o

theorem writeEach_cases {α : Type} (lineOf : α → Except Failure String) (items : List α) :
    (∃ lines, writeEach lineOf items = (lines, none) ∧ items.map lineOf = lines.map .ok) ∨
      ∃ lines failure after, writeEach lineOf items = (lines, some failure) ∧
        items.map lineOf = lines.map .ok ++ .error failure :: after := by
  induction items with
  | nil => exact .inl ⟨[], rfl, rfl⟩
  | cons a items ih =>
    unfold writeEach
    rw [List.map_cons]
    cases ha : lineOf a with
    | error failure =>
      -- Writing ends here, whatever comes after the item.
      exact .inr ⟨[], failure, items.map lineOf, rfl, rfl⟩
    | ok line =>
      rcases ih with ⟨lines, hwrite, hlines⟩ | ⟨lines, failure, after, hwrite, hlines⟩
      · exact .inl ⟨line :: lines, by rw [hwrite], by rw [hlines]; rfl⟩
      · exact .inr ⟨line :: lines, failure, after, by rw [hwrite], by rw [hlines]; rfl⟩

theorem writes_write {α : Type} (log : List Note) (lineOf : α → Except Failure String)
    (items : List α) : Writes (items.map lineOf) (.write log lineOf items) := by
  unfold Outcome.write
  rcases writeEach_cases lineOf items with
    ⟨lines, hwrite, hlines⟩ | ⟨lines, failure, after, hwrite, hlines⟩
  · rw [hwrite]
    exact .all hlines rfl
  · rw [hwrite]
    exact .upTo failure after hlines rfl

namespace Writes

variable {plan : Plan} {o : Outcome}

theorem success_iff (h : Writes plan o) :
    o.ending = .success ↔ ∀ line ∈ plan, ∃ s, line = .ok s := by
  cases h with
  | all hplan hending => simp [hplan, hending]
  | upTo failure after hplan hending =>
    refine iff_of_false (by simp [hending]) fun hall => ?_
    obtain ⟨s, hs⟩ := hall (.error failure) (by simp [hplan])
    simp at hs

/-- Lines that can all be written are written. -/
theorem of_lines {lines : List String} (h : Writes (lines.map .ok) o) :
    o.ending = .success ∧ o.output = lines := by
  have hsuccess : o.ending = .success := h.success_iff.2 (by simp)
  refine ⟨hsuccess, ?_⟩
  cases h with
  | all hplan _ => exact (List.map_injective_iff.2 (fun _ _ => Except.ok.inj) hplan).symm
  | upTo failure after _ hending => simp [hsuccess] at hending

end Writes

/-! ## What a command has to say -/

/-- The kind of index that a listing shows. -/
def listedKind (all : Bool) : Kind := if all then .complete else .filtered

/-- The entries that a listing selects; there are none if no index can be built or the pattern is
refused. -/
def Command.Selects (blocks : List Block) : Command → List Entry → Prop
  | list _ all pattern, entries =>
    ∃ index, (Index.build (listedKind all) blocks).result = .ok index ∧
      selection index pattern = .ok entries
  | info _, _ => False

/-- What a command sets out to write: a line for each entry selected, or the report. -/
def Command.Plans (blocks : List Block) (c : Command) (plan : Plan) : Prop :=
  match c with
  | list .. => ∃ entries, c.Selects blocks entries ∧ plan = entries.map entryLine
  | info dump =>
    ∃ complete live, (Index.build .complete blocks).result = .ok complete ∧
      (Index.build .filtered blocks).result = .ok live ∧
      plan = ((report blocks complete live).lines dump).map encodeLine

/-- Whether all lines of a command can be written. -/
def Command.Writable (blocks : List Block) (c : Command) : Prop :=
  match c with
  | list .. => ∀ entries, c.Selects blocks entries → ∀ e ∈ entries, Listable e
  | info dump => (∃ plan, c.Plans blocks plan) → dump.Proper

/-- Everything was written, or nothing was and an error was told. -/
inductive AllOrNothing (c : Command) (blocks : List Block) (o : Outcome) : Prop
  | all : c.Plans blocks (o.output.map .ok) → o.ending = .success → AllOrNothing c blocks o
  | nothing (log : List Note) (message : String) : o.ending = .refusal → o.output = [] →
      o.notes = log ++ [.line s!"Error: {message}"] → AllOrNothing c blocks o

example : Ending.success.status = 0 ∧ Ending.refusal.status = 2 := by decide

/-- The run ended at a line that cannot be written, with the lines before it written. -/
def BreaksOff (c : Command) (blocks : List Block) (o : Outcome) : Prop :=
  ∃ failure after, c.Plans blocks (o.output.map .ok ++ .error failure :: after) ∧
    o.ending = .failure failure

theorem not_allOrNothing_of_breaksOff {c : Command} {blocks : List Block} {o : Outcome}
    (h : BreaksOff c blocks o) : ¬ AllOrNothing c blocks o := by
  obtain ⟨failure, after, -, hending⟩ := h
  intro ho
  cases ho with
  | all _ hsuccess => simp [hending] at hsuccess
  | nothing log message hrefusal _ _ => simp [hending] at hrefusal

/-! ## Running a command -/

section Running

variable {c : Command} {blocks : List Block} {plan : Plan}

/-- A listing selects one list of entries at most. -/
theorem selects_unique {xs ys : List Entry} (hx : c.Selects blocks xs) (hy : c.Selects blocks ys) :
    xs = ys := by
  cases c with
  | info dump => exact hx.elim
  | list dump all pattern =>
    obtain ⟨index, hindex, hxs⟩ := hx
    obtain ⟨index', hindex', hys⟩ := hy
    obtain rfl : index = index' := Except.ok.inj (hindex.symm.trans hindex')
    exact Except.ok.inj (hxs.symm.trans hys)

theorem plans_of_selects {dump : Text} {all : Bool} {pattern : Option Text} {entries : List Entry}
    (h : (Command.list dump all pattern).Selects blocks entries) :
    (Command.list dump all pattern).Plans blocks (entries.map entryLine) :=
  ⟨entries, h, rfl⟩

theorem plans_of_built {complete live : Index}
    (hcomplete : (Index.build .complete blocks).result = .ok complete)
    (hlive : (Index.build .filtered blocks).result = .ok live) (dump : Text) :
    (Command.info dump).Plans blocks (((report blocks complete live).lines dump).map encodeLine) :=
  ⟨complete, live, hcomplete, hlive, rfl⟩

theorem mem_report_lines {r : Report} {dump line : Text} (h : line ∈ r.lines dump) :
    line = Text.ofString "Dump: " ++ dump ∨ line.Proper := by
  rcases List.mem_cons.1 h with rfl | h
  · exact .inl rfl
  · obtain ⟨s, -, rfl⟩ := List.mem_map.1 h
    exact .inr (Text.proper_ofString s)

/-- A report can be written exactly if the path in its first line can. -/
theorem exists_encodeLines_iff {r : Report} {dump : Text} :
    (∀ line ∈ r.lines dump, ∃ s, encodeLine line = .ok s) ↔ dump.Proper := by
  simp only [exists_encodeLine_iff]
  constructor
  · intro h
    exact (Text.proper_append.1 (h _ List.mem_cons_self)).2
  · intro hdump line hline
    rcases mem_report_lines hline with rfl | hproper
    · exact Text.proper_append.2 ⟨Text.proper_ofString _, hdump⟩
    · exact hproper

theorem writable_iff (h : c.Plans blocks plan) :
    c.Writable blocks ↔ ∀ line ∈ plan, ∃ s, line = .ok s := by
  cases c with
  | list dump all pattern =>
    obtain ⟨entries, hentries, rfl⟩ := h
    rw [List.forall_mem_map]
    simp only [exists_entryLine_iff]
    constructor
    · exact fun hall => hall entries hentries
    · intro hall entries' hentries'
      rwa [selects_unique hentries' hentries]
  | info dump =>
    have hplan := h
    obtain ⟨complete, live, -, -, rfl⟩ := h
    rw [List.forall_mem_map, exists_encodeLines_iff]
    exact ⟨fun hdump => hdump ⟨_, hplan⟩, fun hdump _ => hdump⟩

/-- A command that has something to say writes it. -/
theorem writes_run (h : c.Plans blocks plan) (verbose : Bool) :
    Writes plan (c.run verbose blocks) := by
  cases c with
  | list dump all pattern =>
    obtain ⟨entries, ⟨index, hindex, hentries⟩, rfl⟩ := h
    simp only [listedKind] at hindex
    simp only [Command.run, runList, hindex, hentries]
    exact writes_write _ entryLine entries
  | info dump =>
    obtain ⟨complete, live, hcomplete, hlive, rfl⟩ := h
    simp only [Command.run, runInfo, hcomplete, hlive]
    exact writes_write _ encodeLine _

/-- A command that has nothing to say tells of an error. -/
theorem run_of_not_plans (h : ∀ plan, ¬ c.Plans blocks plan) (verbose : Bool) :
    ∃ log message, c.run verbose blocks = .refuse log message := by
  cases c with
  | list dump all pattern =>
    cases hindex : (Index.build (listedKind all) blocks).result with
    | error m =>
      simp only [listedKind] at hindex
      simp only [Command.run, runList, hindex]
      exact ⟨_, _, rfl⟩
    | ok index =>
      cases hentries : selection index pattern with
      | error rejection =>
        simp only [listedKind] at hindex
        simp only [Command.run, runList, hindex, hentries]
        exact ⟨_, _, rfl⟩
      | ok entries => exact absurd (plans_of_selects ⟨index, hindex, hentries⟩) (h _)
  | info dump =>
    cases hcomplete : (Index.build .complete blocks).result with
    | error m =>
      simp only [Command.run, runInfo, hcomplete]
      exact ⟨_, _, rfl⟩
    | ok complete =>
      cases hlive : (Index.build .filtered blocks).result with
      | error m =>
        simp only [Command.run, runInfo, hcomplete, hlive]
        exact ⟨_, _, rfl⟩
      | ok live => exact absurd (plans_of_built hcomplete hlive dump) (h _)

theorem writable_of_not_plans (h : ∀ plan, ¬ c.Plans blocks plan) : c.Writable blocks := by
  cases c with
  | list dump all pattern => exact fun entries hentries => absurd (plans_of_selects hentries) (h _)
  | info dump => exact fun ⟨plan, hplan⟩ => absurd hplan (h plan)

/-- A command is all or nothing and all its lines can be written, or not all of them can and it
breaks off. -/
theorem run_cases (c : Command) (verbose : Bool) (blocks : List Block) :
    (AllOrNothing c blocks (c.run verbose blocks) ∧ c.Writable blocks) ∨
      BreaksOff c blocks (c.run verbose blocks) ∧ ¬ c.Writable blocks := by
  by_cases h : ∃ plan, c.Plans blocks plan
  · obtain ⟨plan, hplan⟩ := h
    have hwrites := writes_run hplan verbose
    rw [writable_iff hplan, ← hwrites.success_iff]
    cases hwrites with
    | all hlines hending => exact .inl ⟨.all (hlines ▸ hplan) hending, hending⟩
    | upTo failure after hlines hending =>
      exact .inr ⟨⟨failure, after, hlines ▸ hplan, hending⟩, by simp [hending]⟩
  · have hnone : ∀ plan, ¬ c.Plans blocks plan := fun plan hplan => h ⟨plan, hplan⟩
    obtain ⟨log, message, hrun⟩ := run_of_not_plans hnone verbose
    rw [hrun]
    exact .inl ⟨.nothing log message rfl rfl rfl, writable_of_not_plans hnone⟩

end Running

/-! ## The whole program -/

/-- The arguments ask for a command on a dump of the folder that can be loaded. -/
structure Asks (release : Release) (folder : Folder) (arguments : List Text) (i : Invocation)
    (blocks : List Block) : Prop where
  parsed : parse release arguments = .ok i
  loaded : ∃ bytes, folder.read i.command.dump = .ok bytes ∧ Dump.load bytes = .ok blocks

theorem runIn_of_asks {release : Release} {folder : Folder} {arguments : List Text}
    {i : Invocation} {blocks : List Block} (h : Asks release folder arguments i blocks) :
    runIn release folder arguments = i.command.run i.verbose blocks := by
  obtain ⟨hparse, bytes, hread, hload⟩ := h
  unfold runIn
  rw [hparse]
  show i.run (folder.read i.command.dump) = _
  unfold Invocation.run
  rw [hread]
  simp only [hload]

/-- **All or nothing.** A command on a dump that can be loaded writes its whole answer and
succeeds, or writes nothing and tells of an error, exactly if all its lines can be written: if a
listing selects no entry with a mode that cannot be shown or with a surrogate in its name, or if a
report is on a path without surrogates. Otherwise it writes the lines before the first that cannot
be written, and ends with an error that is not handled. -/
theorem all_or_nothing_iff {release : Release} {folder : Folder} {arguments : List Text}
    {i : Invocation} {blocks : List Block} (h : Asks release folder arguments i blocks) :
    (AllOrNothing i.command blocks (runIn release folder arguments) ↔ i.command.Writable blocks) ∧
      (AllOrNothing i.command blocks (runIn release folder arguments) ∨
        BreaksOff i.command blocks (runIn release folder arguments)) := by
  rw [runIn_of_asks h]
  rcases run_cases i.command i.verbose blocks with ⟨hall, hwritable⟩ | ⟨hbreak, hunwritable⟩
  · exact ⟨iff_of_true hall hwritable, .inl hall⟩
  · exact ⟨iff_of_false (not_allOrNothing_of_breaksOff hbreak) hunwritable, .inr hbreak⟩

/-! ## A dump in a folder -/

/-- A folder with the dump of blocks in the file `d`. -/
def folderOf (blocks : List Block) : Folder :=
  [([0x64], Dump.written ⟨.compact, true⟩ .lf (Dump.ofBlocks blocks))]

theorem read_folderOf (blocks : List Block) :
    (folderOf blocks).read "d" =
      .ok (Dump.written ⟨.compact, true⟩ .lf (Dump.ofBlocks blocks)) := by
  unfold folderOf
  generalize Dump.written ⟨.compact, true⟩ .lf (Dump.ofBlocks blocks) = bytes
  cbv

/-- A dump that was written is loaded for a command that names it. -/
theorem asks_folderOf {release : Release} {blocks : List Block}
    (hnames : ∀ b ∈ blocks, ∀ e ∈ b.entries, e.name.Proper) (hoffset : ∀ b ∈ blocks, 0 ≤ b.offset)
    (hfits : ∀ b ∈ blocks, ∀ n ∈ b.integers, Dump.Fits n) {arguments : List Text}
    {i : Invocation} (hparse : parse release arguments = .ok i) (hdump : i.command.dump = "d") :
    Asks release (folderOf blocks) arguments i blocks := by
  refine ⟨hparse, _, by rw [hdump]; exact read_folderOf blocks, ?_⟩
  rw [Dump.load_plain (Dump.plain_ofBlocks hnames hfits),
    Dump.readBlocks_eq_ok_iff.2 (Dump.describes_ofBlocks hoffset)]
  rfl

/-- An entry that is named by a letter and has nothing else but a mode. -/
def entryOfMode (letter : Char) (mode : Int) : Entry :=
  ⟨⟨[letter], 0, mode, 0, List.cons_ne_nil _ _⟩, 0, 0, 0, 0⟩

theorem proper_entryOfMode (letter : Char) (mode : Int) :
    (entryOfMode letter mode).name.Proper := by
  simp [entryOfMode, Text.Proper]

/-- A block whose second entry has a mode that cannot be shown. -/
def halfShowable : List Block :=
  [⟨0, [entryOfMode 'a' 0o644, entryOfMode 'b' (-1)], none⟩]

theorem proper_halfShowable : ∀ b ∈ halfShowable, ∀ e ∈ b.entries, e.name.Proper := by
  simp [halfShowable, proper_entryOfMode]

theorem all_or_nothing_iff_half :
    Asks .later (folderOf halfShowable) ["list", "d"] ⟨false, .list "d" false none⟩ halfShowable ∧
      BreaksOff (.list "d" false none) halfShowable
        (runIn .later (folderOf halfShowable) ["list", "d"]) := by
  have hasks : Asks .later (folderOf halfShowable) ["list", "d"] ⟨false, .list "d" false none⟩
      halfShowable := asks_folderOf proper_halfShowable (by decide) (by decide) (by cbv) rfl
  obtain ⟨hiff, hcases⟩ := all_or_nothing_iff hasks
  refine ⟨hasks, hcases.resolve_left fun hall => ?_⟩
  obtain ⟨index, hindex, hentries⟩ : ∃ index,
      (Index.build .filtered halfShowable).result = .ok index ∧
        index.entries = halfShowable.flatMap fun b => b.entries := ⟨_, by cbv, by cbv⟩
  obtain ⟨hshow, -⟩ := hiff.1 hall index.entries ⟨index, hindex, rfl⟩ (entryOfMode 'b' (-1))
    (by rw [hentries]; simp [halfShowable])
  exact absurd (hshow rfl) (by decide)

example : (Command.list "d" false none).run false
    [⟨0, [entryOfMode 'a' 0o644, { entryOfMode 'b' 0 with name := [0xD800], name_ne := by decide }],
      none⟩] =
    ⟨["-rw-r--r--\t0\t00000000\ta"], [], .failure (.unencodable ⟨0xD800, 22, 1⟩)⟩ := by
  cbv

/-- **Listing is not all or nothing.** The mode of the second entry escapes as an error that is
not handled, after the first entry was written. -/
theorem listing_breaks_off :
    Asks .later (folderOf halfShowable) ["list", "d"] ⟨false, .list "d" false none⟩ halfShowable ∧
      (runIn .later (folderOf halfShowable) ["list", "d"]).output =
        ["-rw-r--r--\t0\t00000000\ta"] ∧
      (runIn .later (folderOf halfShowable) ["list", "d"]).ending = .failure (.mode .negative) ∧
      ¬ AllOrNothing (.list "d" false none) halfShowable
        (runIn .later (folderOf halfShowable) ["list", "d"]) := by
  have hasks : Asks .later (folderOf halfShowable) ["list", "d"] ⟨false, .list "d" false none⟩
      halfShowable := asks_folderOf proper_halfShowable (by decide) (by decide) (by cbv) rfl
  have hrun : runIn .later (folderOf halfShowable) ["list", "d"] =
      ⟨["-rw-r--r--\t0\t00000000\ta"], [], .failure (.mode .negative)⟩ := by
    rw [runIn_of_asks hasks]
    cbv
  rw [hrun]
  refine ⟨hasks, rfl, rfl, fun hall => ?_⟩
  cases hall with
  | all _ hsuccess => simp at hsuccess
  | nothing log message hrefusal _ _ => simp at hrefusal

end CommandLine
end ArchiveIndex
