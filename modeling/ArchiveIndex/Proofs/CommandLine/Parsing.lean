import ArchiveIndex.CommandLine.Usage
import ArchiveIndex.Proofs.Fallible
import Mathlib.Data.List.Basic

/-!
# Asking for a listing

Arguments are read twice, by the program and by the command that it is to run. Each classifies them
by its own options, so what is an option to the command is unknown to the program, which hands it
on unread.

**Theorem (`parse_globArgument`).** Every text can be given as the pattern of a listing, joined to
its option. The later release hands on each as it is; the earlier one takes `--` for no pattern.
-/

namespace ArchiveIndex.CommandLine

section Arguments

variable {α : Type} {g : Grammar α} {argument : Text} {arguments : List Text}
  {shapes : List (Text × Shape α)}

theorem classify_cons {shape : Shape α} (hmark : argument ≠ mark)
    (hshape : g.shapeOf argument = .ok shape) (hrest : g.classify arguments = .ok shapes) :
    g.classify (argument :: arguments) = .ok ((argument, shape) :: shapes) := by
  rw [Grammar.classify, if_neg hmark, hshape, hrest]
  rfl

/-- An argument without a dash in front is a word. -/
theorem classify_word (h : argument.head? ≠ some ('-' : CodePoint)) :
    g.classify [argument] = .ok [(argument, .word)] := by
  refine classify_cons ?_ (if_pos h) rfl
  rintro rfl
  exact h rfl

theorem map_fst_of_classify (h : g.classify arguments = .ok shapes) :
    shapes.map (·.1) = arguments := by
  induction arguments generalizing shapes with
  | nil => rw [← Except.ok.inj h]; rfl
  | cons argument arguments ih =>
    unfold Grammar.classify at h
    split at h
    · rw [← Except.ok.inj h, List.map_cons, List.map_map]
      exact congrArg (argument :: ·) (List.map_id arguments)
    · obtain ⟨shape, -, h⟩ := bind_eq_ok_iff.1 h
      obtain ⟨later, hlater, h⟩ := bind_eq_ok_iff.1 h
      rw [← Except.ok.inj h, List.map_cons, ih hlater]

end Arguments

/-- What follows the name of the command is read by the command. -/
theorem parse_list {release : Release} {arguments : List Text}
    {shapes : List (Text × Shape Setting)} {settings : List (Setting × Option Text)} {dump : Text}
    (hmain : mainGrammar.classify arguments = .ok shapes)
    (hread : Verb.list.grammar.read release arguments = .ok ⟨settings, [dump], []⟩) :
    parse release ("list" :: arguments) =
      .ok ⟨false, Verb.list.command ⟨settings, [dump], []⟩ dump⟩ := by
  have hclassify : mainGrammar.classify ("list" :: arguments) =
      .ok ((Text.ofString "list", .word) :: shapes) := classify_cons (by decide) rfl hmain
  have hconsume : mainGrammar.consume release true ((Text.ofString "list", .word) :: shapes) =
      .ok ⟨[], "list" :: arguments, []⟩ := by
    unfold Grammar.consume
    rw [← map_fst_of_classify hmain]
    rfl
  have hverb : Verb.ofName? "list" = some .list := by rfl
  rw [parse, Grammar.read, hclassify]
  show (mainGrammar.consume release true _).mapError _ >>= _ = _
  rw [hconsume]
  simp only [Except.mapError, bind, Except.bind, hverb, hread]
  rfl

/-- A pattern joined to its option. -/
def globArgument (pattern : Text) : Text := Text.ofString "--glob=" ++ pattern

theorem classify_globArgument {α : Type} {g : Grammar α} {shape : Shape α} {pattern dump : Text}
    (hshape : g.shapeOf (globArgument pattern) = .ok shape)
    (hdump : dump.head? ≠ some ('-' : CodePoint)) :
    g.classify [globArgument pattern, dump] =
      .ok [(globArgument pattern, shape), (dump, .word)] := by
  refine classify_cons (fun hmark => ?_) hshape (classify_word hdump)
  have hlength := congrArg List.length hmark
  simp [globArgument, Text.ofString, mark] at hlength

def globSwitch : Switch Setting := { names := ["--glob"], effect := .set .glob, takesValue := true }

theorem shapeOf_globArgument (pattern : Text) :
    Verb.list.grammar.shapeOf (globArgument pattern) =
      .ok (.option globSwitch "--glob" (some (true, pattern))) := rfl

theorem joined_of_takesValue {α : Type} {g : Grammar α} {s : Switch α} (h : s.takesValue = true)
    (release : Release) (name : Text) (explicit : Bool) (value : Text) :
    g.joined release s name explicit value = .ok ⟨[(s, release.value? value)], []⟩ := by
  unfold Grammar.joined
  exact if_pos h

theorem consume_globArgument (release : Release) (argument value dump : Text) :
    Verb.list.grammar.consume release true
        [(argument, .option globSwitch "--glob" (some (true, value))), (dump, .word)] =
      .ok ⟨[(.glob, release.value? value)], [dump], []⟩ := by
  have hdump : Verb.list.grammar.consume release true [(dump, .word)] = .ok ⟨[], [dump], []⟩ := by
    simp only [Grammar.consume]
    rfl
  unfold Grammar.consume
  simp only [joined_of_takesValue (s := globSwitch) rfl, hdump]
  rfl

/-- **Every text can be given as a pattern.** What is joined to the option is the pattern, except
that the earlier release takes the mark for none. -/
theorem parse_globArgument (release : Release) (pattern : Text) {dump : Text}
    (hdump : dump.head? ≠ some ('-' : CodePoint)) :
    parse release ["list", globArgument pattern, dump] =
        .ok ⟨false, .list dump false (release.value? pattern)⟩ ∧
      parse release ["list", "--all", globArgument pattern, dump] =
        .ok ⟨false, .list dump true (release.value? pattern)⟩ := by
  -- To the program the pattern is a word or an option that it does not know; both are handed on.
  obtain ⟨shapes, hmain⟩ : ∃ shapes,
      mainGrammar.classify [globArgument pattern, dump] = .ok shapes :=
    ⟨_, classify_globArgument rfl hdump⟩
  have hclassify := classify_globArgument (shapeOf_globArgument pattern) hdump
  have hread : Verb.list.grammar.read release [globArgument pattern, dump] =
      .ok ⟨[(.glob, release.value? pattern)], [dump], []⟩ := by
    rw [Grammar.read, hclassify]
    exact consume_globArgument release _ pattern dump
  have hreadall : Verb.list.grammar.read release ["--all", globArgument pattern, dump] =
      .ok ⟨[(.all, none), (.glob, release.value? pattern)], [dump], []⟩ := by
    rw [Grammar.read, classify_cons (by decide) rfl hclassify]
    show Verb.list.grammar.consume release true _ = _
    unfold Grammar.consume
    rw [consume_globArgument release _ pattern dump]
    rfl
  exact ⟨parse_list hmain hread, parse_list (classify_cons (by decide) rfl hmain) hreadall⟩

example :
    parse .later ["list", "--glob=--", "d"] = .ok ⟨false, .list "d" false (some "--")⟩ := by
  cbv

end ArchiveIndex.CommandLine
