import ArchiveIndex.Text.Encodable
import Mathlib

/-!
# Proper texts

A text is proper if it has no surrogates. Proper texts and strings are the same thing: a string is a
proper text, a proper text is one string and no other, and there are no halves of a pair in it to be
joined.

**Theorem (`toString?_eq_ok_iff`).** A text is written as a string exactly if it is that string.
**Theorem (`toString?_eq_error_iff`).** It is not written exactly if it has a surrogate, and then
the first one is reported, with its place and with the surrogates right after it.
-/

namespace ArchiveIndex

namespace CodePoint

variable {p : CodePoint} {c : Char}

theorem isSurrogate_iff (p : CodePoint) :
    p.isSurrogate = true ↔ 0xD800 ≤ p.val ∧ p.val < 0xE000 := by
  simp only [isSurrogate, isHighSurrogate, isLowSurrogate, Bool.or_eq_true, Bool.and_eq_true,
    decide_eq_true_eq]
  omega

theorem exists_eq_ofChar (h : p.isSurrogate = false) : ∃ c, p = ofChar c := by
  have hvalid : Nat.isValidChar p.val := by
    rw [← Bool.not_eq_true, isSurrogate_iff] at h
    have := p.isLt
    simp only [Nat.isValidChar]
    omega
  refine ⟨Char.ofNat p.val, Fin.ext ?_⟩
  rw [val_ofChar, Char.toNat_ofNat, if_pos hvalid]

theorem toChar?_eq_some_iff : p.toChar? = some c ↔ p = ofChar c := by
  constructor
  · intro h
    cases hp : p.isSurrogate with
    | true => simp [toChar?, hp] at h
    | false =>
      obtain ⟨d, rfl⟩ := exists_eq_ofChar hp
      rw [toChar?_ofChar] at h
      rw [Option.some.inj h]
  · rintro rfl
    exact toChar?_ofChar c

theorem toChar?_eq_none_iff : p.toChar? = none ↔ p.isSurrogate = true := by
  unfold toChar?
  split <;> simp_all

theorem ofChar_injective : Function.Injective ofChar := fun _ _ h => ofChar_inj.1 h

end CodePoint

namespace Text

variable {t : Text} {s : String}

def Proper (t : Text) : Prop := ∀ p ∈ t, p.isSurrogate = false

instance : DecidablePred Proper := fun t =>
  inferInstanceAs (Decidable (∀ p ∈ t, p.isSurrogate = false))

theorem proper_map_ofChar (cs : List Char) : Proper (cs.map CodePoint.ofChar) := by
  intro p hp
  obtain ⟨c, -, rfl⟩ := List.mem_map.1 hp
  exact CodePoint.isSurrogate_ofChar c

theorem proper_ofString (s : String) : (ofString s).Proper := proper_map_ofChar s.toList

theorem proper_append {t t' : Text} : (t ++ t').Proper ↔ t.Proper ∧ t'.Proper :=
  List.forall_mem_append

theorem ofString_injective : Function.Injective ofString := fun _ _ h =>
  String.toList_injective (List.map_injective_iff.2 CodePoint.ofChar_injective h)

/-! ## Texts that are written -/

theorem encodeFrom_toChar?_eq_ok_iff {offset : Nat} {cs : List Char} :
    encodeFrom (fun p => p.toChar?.map fun c => [c]) offset t = .ok cs ↔
      t = cs.map CodePoint.ofChar := by
  induction t generalizing offset cs with
  | nil => simp [encodeFrom, eq_comm]
  | cons p rest ih =>
    unfold encodeFrom
    cases hp : p.toChar? with
    | none =>
      -- No character is a surrogate, so `p` is none of them.
      have hsurrogate := CodePoint.toChar?_eq_none_iff.1 hp
      refine iff_of_false (by simp) fun h => ?_
      have hproper := proper_map_ofChar cs p (h ▸ List.mem_cons_self)
      simp [hsurrogate] at hproper
    | some c =>
      obtain rfl := CodePoint.toChar?_eq_some_iff.1 hp
      constructor
      · intro h
        cases hrest : encodeFrom (fun p => p.toChar?.map fun c => [c]) (offset + 1) rest with
        | error u => simp [hrest, Except.map] at h
        | ok later =>
          simp only [hrest, Option.map_some, Except.map, Except.ok.injEq] at h
          rw [← h, ih.1 hrest]
          rfl
      · intro h
        cases cs with
        | nil => simp at h
        | cons d later =>
          obtain ⟨hd, hlater⟩ := List.cons.inj h
          rw [CodePoint.ofChar_inj.1 hd]
          simp only [Option.map_some, ih.2 hlater]
          rfl

/-- **A text is written as the string that it is.** -/
theorem toString?_eq_ok_iff : t.toString? = .ok s ↔ t = ofString s := by
  unfold toString?
  constructor
  · intro h
    cases hcs : encodeFrom (fun p => p.toChar?.map fun c => [c]) 0 t with
    | error u => simp [hcs, Except.map] at h
    | ok cs =>
      simp only [hcs, Except.map, Except.ok.injEq] at h
      rw [← h, ofString, String.toList_ofList, encodeFrom_toChar?_eq_ok_iff.1 hcs]
  · rintro rfl
    rw [ofString, encodeFrom_toChar?_eq_ok_iff.2 rfl, Except.map, String.ofList_toList]

theorem encodeFrom_eq_error_iff {β : Type} {units? : CodePoint → Option (List β)} {offset : Nat}
    {u : Unencodable} :
    encodeFrom units? offset t = .error u ↔
      ∃ before after, t = before ++ u.first :: after ∧ (∀ p ∈ before, (units? p).isSome) ∧
        units? u.first = none ∧ u.offset = offset + before.length ∧
          u.length = ((u.first :: after).takeWhile CodePoint.isSurrogate).length := by
  induction t generalizing offset with
  | nil => simp [encodeFrom]
  | cons p rest ih =>
    unfold encodeFrom
    cases hp : units? p with
    | none =>
      constructor
      · intro h
        rw [← Except.error.inj h]
        exact ⟨[], rest, rfl, by simp, hp, rfl, rfl⟩
      · rintro ⟨before, after, ht, hbefore, -, hoffset, hlength⟩
        cases before with
        | nil =>
          obtain ⟨first, place, length⟩ := u
          obtain ⟨rfl, rfl⟩ := List.cons.inj ht
          obtain rfl : place = offset := hoffset
          simp only [Except.error.injEq, Unencodable.mk.injEq, true_and]
          exact hlength.symm
        | cons q before =>
          obtain ⟨rfl, -⟩ := List.cons.inj ht
          simpa [hp] using hbefore p List.mem_cons_self
    | some units =>
      have hmap : (encodeFrom units? (offset + 1) rest).map (units ++ ·) = .error u ↔
          encodeFrom units? (offset + 1) rest = .error u := by
        cases encodeFrom units? (offset + 1) rest <;> simp [Except.map]
      simp only [hmap, ih]
      constructor
      · rintro ⟨before, after, rfl, hbefore, hfirst, hoffset, hlength⟩
        refine ⟨p :: before, after, rfl, ?_, hfirst, ?_, hlength⟩
        · exact List.forall_mem_cons.2 ⟨by rw [hp]; rfl, hbefore⟩
        · rw [hoffset, List.length_cons]
          omega
      · rintro ⟨before, after, ht, hbefore, hfirst, hoffset, hlength⟩
        cases before with
        | nil =>
          obtain ⟨rfl, -⟩ := List.cons.inj ht
          simp [hp] at hfirst
        | cons q before =>
          obtain ⟨rfl, rfl⟩ := List.cons.inj ht
          refine ⟨before, after, rfl, (List.forall_mem_cons.1 hbefore).2, hfirst, ?_, hlength⟩
          rw [hoffset, List.length_cons]
          omega

/-- **A text that is not written has a surrogate,** and the first one is reported. -/
theorem toString?_eq_error_iff {u : Unencodable} :
    t.toString? = .error u ↔
      ∃ before after, t = before ++ u.first :: after ∧ before.Proper ∧
        u.first.isSurrogate = true ∧ u.offset = before.length ∧
          u.length = ((u.first :: after).takeWhile CodePoint.isSurrogate).length := by
  have hmap : t.toString? = .error u ↔
      encodeFrom (fun p => p.toChar?.map fun c => [c]) 0 t = .error u := by
    unfold toString?
    cases encodeFrom (fun p => p.toChar?.map fun c => [c]) 0 t <;> simp [Except.map]
  have hsome : ∀ p : CodePoint, ((p.toChar?.map fun c => [c]).isSome = true ↔
      p.isSurrogate = false) := fun p => by
    rw [Option.isSome_map, ← Bool.not_eq_true, ← CodePoint.toChar?_eq_none_iff,
      Option.isSome_iff_ne_none]
  simp only [hmap, encodeFrom_eq_error_iff, hsome, Option.map_eq_none_iff,
    CodePoint.toChar?_eq_none_iff, Nat.zero_add]
  rfl

/-- A text can be written exactly if it is proper. -/
theorem exists_toString?_iff : (∃ s, t.toString? = .ok s) ↔ t.Proper := by
  constructor
  · rintro ⟨s, h⟩
    rw [toString?_eq_ok_iff.1 h]
    exact proper_ofString s
  · intro h
    cases ht : t.toString? with
    | ok s => exact ⟨s, rfl⟩
    | error u =>
      obtain ⟨before, after, rfl, -, hfirst, -⟩ := toString?_eq_error_iff.1 ht
      simp [h u.first (by simp)] at hfirst

end Text
end ArchiveIndex
