import PstackElf.Defs.Versions
import PstackElf.Object.Construct

/-! What the plain accessors of `Object` answer on an object the constructor
built. `getInterpreter()` reads the `PT_INTERP` header that sorts first by
address, whatever its place in the file. `versionIdxForSymbol(idx)` reads
through `gnu_version`, which the constructor sets only when it names the
sections: on an image without section names the pointer is null and the call
is undefined. -/

namespace PstackElf

theorem Except.bind_error_of_ok {α β : Type} {x : Except Fault α} {f : α → Except Fault β} {e : Fault}
    (hf : ∀ a, ∃ b, f a = .ok b) (h : x >>= f = .error e) : x = .error e := by
  cases x with
  | error e' => cases h; rfl
  | ok a =>
    obtain ⟨b, hb⟩ := hf a
    rw [Except.ok_bind, hb] at h
    cases h

theorem Reader.readBytes_error_eq {r : Reader} {off n : Nat} {e : Fault} (h : r.readBytes off n = .error e) :
    e = .readError := by
  unfold Reader.readBytes at h
  split at h <;> cases h
  rfl

theorem Section.makeIo_error {B : Build} {r : Reader} {s : Section} {e : Fault}
    (h : s.makeIo B r = .error e) : e = .readError := by
  unfold Section.makeIo at h
  split_ifs at h <;> first
    | cases h
    | exact Reader.readBytes_error_eq (Except.bind_error_of_ok (fun _ => ⟨_, rfl⟩) h)
    | exact Reader.readBytes_error_eq (Except.bind_error_of_ok (fun _ => by split <;> exact ⟨_, rfl⟩) h)

theorem Section.io_error {B : Build} {r : Reader} {s : Section} {e : Fault}
    (h : s.io B r = .error e) : e = .readError := by
  unfold Section.io at h
  split at h
  · cases h
  · cases hm : s.makeIo B r with
    | ok v => rw [hm] at h; cases h
    | error e' => rw [hm] at h; cases h; exact Section.makeIo_error hm

namespace Object

variable {B : Build} {σ : PhdrSort} {io : Reader} {isDebug : Bool} {o : Object}

theorem sectionIo_error {i : Nat} {e : Fault} (h : o.sectionIo B i = .error e) : e = .readError := by
  cases hs : (o.sectionAt i).io B o.io with
  | ok v => rw [sectionIo, hs] at h; cases h
  | error e' => rw [sectionIo, hs] at h; cases h; exact Section.io_error hs

/-- On every object the constructor builds, `getInterpreter()` reads the
`PT_INTERP` header of least `p_vaddr` in the program header table, since the
constructor sorted each type's headers by address; with no `PT_INTERP` header
it is the empty string. -/
theorem getInterpreter_construct (h : construct B σ io isDebug = .ok o) :
    let interps := (phdrTable io o.elfHeader).filter fun p => p.p_type = PT_INTERP
    (interps = [] → o.getInterpreter = []) ∧
    (interps ≠ [] → ∃ p ∈ interps, (∀ q ∈ interps, p.p_vaddr ≤ q.p_vaddr) ∧
      o.getInterpreter = io.readString p.p_offset.toNat) := by
  intro interps
  obtain ⟨-, hio, -, -, hph, -⟩ := construct_contents h
  obtain ⟨hperm, hsorted⟩ := hph PT_INTERP
  unfold getInterpreter getSegments
  cases hs : o.programHeaders PT_INTERP with
  | nil =>
    rw [hs] at hperm
    exact ⟨fun _ => rfl, fun hne => absurd hperm.symm.eq_nil hne⟩
  | cons seg rest =>
    rw [hs] at hperm hsorted
    refine ⟨fun hnil => absurd (hperm.trans (List.Perm.of_eq hnil)).eq_nil (List.cons_ne_nil _ _),
      fun _ => ⟨seg, hperm.subset (List.mem_cons_self _ _), fun q hq => ?_, by rw [hio]⟩⟩
    rcases List.mem_cons.mp (hperm.symm.subset hq) with rfl | hq
    · exact BitVec.le_refl _
    · exact (List.sorted_cons.mp hsorted).1 q hq

theorem versionIdxForSymbol_error {g : Nat} (hg : o.gnu_version = some g) {idx : Xword} {e : Fault}
    (h : o.versionIdxForSymbol B idx = .error e) : e = .readError := by
  rw [versionIdxForSymbol, hg] at h
  dsimp only at h
  split at h
  · cases hs : o.sectionIo B g with
    | error e' => rw [hs] at h; cases h; exact sectionIo_error hs
    | ok v =>
      obtain ⟨r, o'⟩ := v
      rw [hs, Except.ok_bind] at h
      exact Reader.readBytes_error_eq (Except.bind_error_of_ok (fun _ => ⟨_, rfl⟩) h)
  · cases h

/-- On every object the constructor builds, `versionIdxForSymbol(idx)` is
undefined, a dereference of the null `gnu_version`, exactly when the image has
no section names: its `e_shstrndx` is `SHN_UNDEF` or its section headers start
past its end. Otherwise its only fault is a read error, and it answers none
when `.gnu.version` is absent. -/
theorem versionIdxForSymbol_construct (h : construct B σ io isDebug = .ok o) (idx : Xword) :
    if o.elfHeader.e_shstrndx ≠ SHN_UNDEF ∧ o.elfHeader.e_shoff.toNat < io.length then
      (∀ e, o.versionIdxForSymbol B idx = .error e → e = .readError) ∧
      ((o.sectionAt (o.getSection (lit ".gnu.version") SHT_GNU_versym)).present = false →
        o.versionIdxForSymbol B idx = .ok (none, o))
    else o.versionIdxForSymbol B idx = .error .outOfRange := by
  obtain ⟨-, -, -, -, -, -, hnames⟩ := construct_contents h
  split at hnames
  · rw [if_pos ‹_›]
    refine ⟨fun e he => versionIdxForSymbol_error hnames.gnu_version he, fun habs => ?_⟩
    rw [versionIdxForSymbol, hnames.gnu_version]
    exact if_neg (by simp [habs])
  · rw [if_neg ‹_›, versionIdxForSymbol, hnames.gnu_version]

/-- An image of two `PT_INTERP` headers and no section names: `/a` at
`0x2000` first in the file, then `/b` at `0x1000`. -/
def twoInterpImage : Reader :=
  segmentImage [⟨PT_INTERP, 176, 0x2000, 3, 3⟩, ⟨PT_INTERP, 179, 0x1000, 3, 3⟩] ++
    lit "/a" ++ [0] ++ lit "/b" ++ [0]

set_option maxRecDepth 8000 in
theorem getInterpreter_construct_on_two_interps :
    construct noZlib PhdrSort.insertion twoInterpImage false = .ok (ofImage twoInterpImage) ∧
    let o := ofImage twoInterpImage
    let interps := (phdrTable twoInterpImage o.elfHeader).filter fun p => p.p_type = PT_INTERP
    (interps = [] → o.getInterpreter = []) ∧
    (interps ≠ [] → ∃ p ∈ interps, (∀ q ∈ interps, p.p_vaddr ≤ q.p_vaddr) ∧
      o.getInterpreter = twoInterpImage.readString p.p_offset.toNat) := by
  refine ⟨?h, getInterpreter_construct ?h⟩
  rfl

set_option maxRecDepth 8000 in
example : (ofImage twoInterpImage).getInterpreter = lit "/b" := by decide

set_option maxRecDepth 8000 in
theorem versionIdxForSymbol_construct_on_two_interps :
    construct noZlib PhdrSort.insertion twoInterpImage false = .ok (ofImage twoInterpImage) ∧
    let o := ofImage twoInterpImage
    if o.elfHeader.e_shstrndx ≠ SHN_UNDEF ∧ o.elfHeader.e_shoff.toNat < twoInterpImage.length then
      (∀ e, o.versionIdxForSymbol noZlib 0 = .error e → e = .readError) ∧
      ((o.sectionAt (o.getSection (lit ".gnu.version") SHT_GNU_versym)).present = false →
        o.versionIdxForSymbol noZlib 0 = .ok (none, o))
    else o.versionIdxForSymbol noZlib 0 = .error .outOfRange := by
  refine ⟨?h, versionIdxForSymbol_construct ?h 0⟩
  rfl

set_option maxRecDepth 8000 in
example : (ofImage twoInterpImage).versionIdxForSymbol noZlib 0 = .error .outOfRange := rfl

end Object

end PstackElf
