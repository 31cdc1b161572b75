import PstackElf.Object.Construct

/-! `Object::getSection(name, type)`: its recursion and what it returns. The
code calls itself on the `.zdebug_` form of a `.debug_` name and on the
`.dwo` form of a name without `.dwo`; neither form calls itself again in the
same way, so the recursion is at most three calls deep (`getSectionFrom_depth`),
which is the fuel the model gives it. For a type other than `SHT_NULL`, the
nested calls flatten to a search through the names of `searchOrder`
(`getSectionFrom_searchOrder`). -/

namespace PstackElf

namespace Object

/-- How many more calls `getSection(name)` can make. -/
def nameDepth (name : Name) : Nat :=
  (if (lit ".debug_").isPrefixOf name then 1 else 0) + (if (lit ".dwo").isSuffixOf name then 0 else 1)

theorem isPrefixOf_debug_z (name : Name) : (lit ".debug_").isPrefixOf (lit ".z" ++ name.drop 1) = false := rfl

theorem isSuffixOf_dwo_append (name : Name) : (lit ".dwo").isSuffixOf (name ++ lit ".dwo") = true :=
  List.isSuffixOf_iff_suffix.mpr (List.suffix_append _ _)

theorem isPrefixOf_debug_dwo (name : Name) :
    (lit ".debug_").isPrefixOf (name ++ lit ".dwo") = (lit ".debug_").isPrefixOf name := by
  rw [Bool.eq_iff_iff, List.isPrefixOf_iff_prefix, List.isPrefixOf_iff_prefix]
  refine ⟨fun h => ?_, fun h => h.trans (List.prefix_append _ _)⟩
  rcases List.prefix_or_prefix_of_prefix h (List.prefix_append name (lit ".dwo")) with h' | h'
  · exact h'
  · have hD : lit ".debug_" = name ++ (lit ".debug_").drop name.length := by
      conv_lhs => rw [← List.take_append_drop name.length (lit ".debug_")]
      rw [← List.prefix_iff_eq_take.mp h']
    rw [hD, List.prefix_append_right_inj, ← List.isPrefixOf_iff_prefix] at h
    have : ∀ k ≤ 7, ((lit ".debug_").drop k).isPrefixOf (lit ".dwo") = true → k = 7 := by decide
    rw [h'.eq_of_length (this _ h'.length_le h)]

theorem isSuffixOf_dwo_z {name : Name} (h : (lit ".debug_").isPrefixOf name = true) :
    (lit ".dwo").isSuffixOf (lit ".z" ++ name.drop 1) = (lit ".dwo").isSuffixOf name := by
  have hl : 4 ≤ (name.drop 1).length := by
    have := (List.isPrefixOf_iff_prefix.mp h).length_le
    rw [List.length_drop]
    exact Nat.le_sub_of_add_le (by rw [show (lit ".debug_").length = 7 from rfl] at this; omega)
  have key : ∀ p : Name, lit ".dwo" <:+ p ++ name.drop 1 ↔ lit ".dwo" <:+ name.drop 1 := fun p =>
    ⟨fun hs => List.suffix_of_suffix_length_le hs (List.suffix_append _ _) (by simpa using hl),
      fun hs => hs.trans (List.suffix_append _ _)⟩
  rw [Bool.eq_iff_iff, List.isSuffixOf_iff_suffix, List.isSuffixOf_iff_suffix, key,
    ← List.take_append_drop 1 name, key]
  simp only [List.take_append_drop]

theorem nameDepth_z {name : Name} (hp : (lit ".debug_").isPrefixOf name = true) :
    nameDepth (lit ".z" ++ name.drop 1) + 1 = nameDepth name := by
  simp only [nameDepth, isPrefixOf_debug_z, isSuffixOf_dwo_z hp, hp, ↓reduceIte, Bool.false_eq_true]
  omega

theorem nameDepth_dwo {name : Name} (hs : (lit ".dwo").isSuffixOf name = false) :
    nameDepth (name ++ lit ".dwo") + 1 = nameDepth name := by
  simp only [nameDepth, isPrefixOf_debug_dwo, isSuffixOf_dwo_append, hs, ↓reduceIte, Bool.false_eq_true]

variable (o : Object) (type : Word)

theorem getSectionFrom_stable {f g : Nat} {name : Name} (hf : nameDepth name < f) (hg : nameDepth name < g) :
    o.getSectionFrom type f name = o.getSectionFrom type g name := by
  induction f generalizing name g with
  | zero => omega
  | succ f ih =>
    obtain ⟨g, rfl⟩ : ∃ g', g = g' + 1 := ⟨g - 1, by omega⟩
    simp only [getSectionFrom]
    have hz : (lit ".debug_").isPrefixOf name = true →
        o.getSectionFrom type f (lit ".z" ++ name.drop 1) = o.getSectionFrom type g (lit ".z" ++ name.drop 1) :=
      fun hp => have := nameDepth_z hp; @ih g _ (by omega) (by omega)
    have hw : (lit ".dwo").isSuffixOf name = false →
        o.getSectionFrom type f (name ++ lit ".dwo") = o.getSectionFrom type g (name ++ lit ".dwo") :=
      fun hs => have := nameDepth_dwo hs; @ih g _ (by omega) (by omega)
    cases hp : (lit ".debug_").isPrefixOf name <;> cases hs : (lit ".dwo").isSuffixOf name <;>
      simp only [hp, hs, hz, hw, ↓reduceIte, Bool.not_true, Bool.not_false, Bool.false_eq_true]

theorem nameDepth_le (name : Name) : nameDepth name ≤ 2 := by
  unfold nameDepth; split <;> split <;> omega

/-- `getSection(name, type)` never calls itself more than three deep: with
room for any deeper recursion it returns the same section. -/
theorem getSectionFrom_depth {n : Nat} (h : 3 ≤ n) (name : Name) :
    o.getSectionFrom type n name = o.getSection name type :=
  have := nameDepth_le name
  getSectionFrom_stable o type (by omega) (by omega)

/-- The names `getSection(name)` tries, in order, within `fuel` levels: the
name; for a `.debug_` name, what its `.zdebug_` form tries; for a name without
`.dwo`, what its `.dwo` form tries. -/
def searchOrder : Nat → Name → List Name
  | 0, _ => []
  | fuel + 1, name =>
    name :: ((if (lit ".debug_").isPrefixOf name then searchOrder fuel (lit ".z" ++ name.drop 1) else []) ++
      (if (lit ".dwo").isSuffixOf name then [] else searchOrder fuel (name ++ lit ".dwo")))

variable {o type}

theorem lookup_present (ht : type ≠ SHT_NULL) {n : Name} {i : Nat} (h : o.lookup n type = some i) :
    (o.sectionAt i).present = true := by
  obtain ⟨-, hi⟩ := Option.filter_eq_some.mp h
  simp only [decide_eq_true_eq, ht, or_false] at hi
  simpa [Section.present, hi] using ht

theorem filter_present_findSome (ht : type ≠ SHT_NULL) (h0 : (o.sectionAt 0).present = false) (l : List Name) :
    (some ((l.findSome? (o.lookup · type)).getD 0)).filter (fun c => (o.sectionAt c).present) =
      l.findSome? (o.lookup · type) := by
  cases h : l.findSome? (o.lookup · type) with
  | none => simp [h0]
  | some i =>
    obtain ⟨n, -, hn⟩ := List.exists_of_findSome?_eq_some h
    simp [lookup_present ht hn]

/-- For a type other than `SHT_NULL`, and a section 0 that is the null
section, `getSection` returns the section of the first name of
`searchOrder` that has one of that type, and section 0 when none has. -/
theorem getSectionFrom_searchOrder (ht : type ≠ SHT_NULL) (h0 : (o.sectionAt 0).present = false)
    (f : Nat) (name : Name) :
    o.getSectionFrom type f name = ((searchOrder f name).findSome? (o.lookup · type)).getD 0 := by
  induction f generalizing name with
  | zero => rfl
  | succ f ih =>
    have hl : (o.namedSection name).filter (fun i => (o.sectionAt i).shdr.sh_type = type ∨ type = SHT_NULL) =
      o.lookup name type := rfl
    simp only [getSectionFrom, searchOrder, List.findSome?_cons, List.findSome?_append, hl]
    cases h : o.lookup name type with
    | some i => rfl
    | none =>
      dsimp only
      cases hp : (lit ".debug_").isPrefixOf name <;> cases hs : (lit ".dwo").isSuffixOf name <;>
        simp only [↓reduceIte, Bool.not_true, Bool.not_false, Bool.false_eq_true, ih,
          filter_present_findSome ht h0, List.findSome?_nil, Option.none_or, Option.filter_none]
      all_goals cases (searchOrder f (lit ".z" ++ name.drop 1)).findSome? (o.lookup · type) <;> rfl

/-- A `.debug_` name is looked for as itself, in its `.zdebug_` form and
that form's `.dwo` form, then in its `.dwo` form and that form's `.zdebug_`
form, which is the third again. -/
example : searchOrder 3 (lit ".debug_info") =
    [lit ".debug_info", lit ".zdebug_info", lit ".zdebug_info.dwo", lit ".debug_info.dwo",
      lit ".zdebug_info.dwo"] := by
  decide

end Object

theorem getSectionFrom_depth_on_dwo_dynamic :
    3 ≤ 4 ∧ (Object.ofImage Object.dwoDynamicImage).getSectionFrom SHT_DYNAMIC 4 (lit ".debug_info") =
      (Object.ofImage Object.dwoDynamicImage).getSection (lit ".debug_info") SHT_DYNAMIC :=
  ⟨by decide, Object.getSectionFrom_depth _ _ (by decide) _⟩

set_option maxRecDepth 8000 in
theorem getSectionFrom_searchOrder_on_dwo_dynamic :
    SHT_DYNAMIC ≠ SHT_NULL ∧ ((Object.ofImage Object.dwoDynamicImage).sectionAt 0).present = false ∧
    (Object.ofImage Object.dwoDynamicImage).getSectionFrom SHT_DYNAMIC 3 (lit ".dynamic") =
      ((Object.searchOrder 3 (lit ".dynamic")).findSome?
        ((Object.ofImage Object.dwoDynamicImage).lookup · SHT_DYNAMIC)).getD 0 := by
  refine ⟨?ht, ?h0, Object.getSectionFrom_searchOrder ?ht ?h0 3 _⟩ <;> decide

end PstackElf
