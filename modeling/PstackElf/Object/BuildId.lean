import PstackElf.Defs.Debug
import PstackElf.Object.NoteLoop

/-! The build-ID step of `getDebug`. Its loop over `notes()` stops at the
first build-ID note, and so picks what a search of the whole list of notes
would pick (`findBuildId_visit`); the path it asks for spells the ID in two
hex digits a byte, so two IDs never name the same file (`buildIdPath_inj`). -/

namespace PstackElf

def NoteDesc.isBuildId (d : NoteDesc) : Bool := d.name = lit "GNU" ∧ d.type = GNU_BUILD_ID

theorem hexDigit_inj {d e : Nat} (hd : d < 16) (he : e < 16) (h : hexDigit d = hexDigit e) : d = e := by
  have : ∀ d < 16, ∀ e < 16, hexDigit d = hexDigit e → d = e := by decide
  exact this d hd e he h

theorem hexByte_inj {a b : Byte} (h : hexByte a = hexByte b) : a = b := by
  simp only [hexByte, List.cons.injEq, and_true] at h
  have h1 := hexDigit_inj (Nat.div_lt_of_lt_mul (by simpa using a.isLt))
    (Nat.div_lt_of_lt_mul (by simpa using b.isLt)) h.1
  have h2 := hexDigit_inj (Nat.mod_lt _ (by norm_num)) (Nat.mod_lt _ (by norm_num)) h.2
  exact BitVec.eq_of_toNat_eq (by rw [← Nat.div_add_mod a.toNat 16, ← Nat.div_add_mod b.toNat 16, h1, h2])

theorem length_hexByte (b : Byte) : (hexByte b).length = 2 := rfl

theorem flatMap_hexByte_inj {bs cs : List Byte} (h : bs.flatMap hexByte = cs.flatMap hexByte) : bs = cs := by
  induction bs generalizing cs with
  | nil => cases cs with
    | nil => rfl
    | cons c cs => simp [List.flatMap_cons, hexByte] at h
  | cons b bs ih =>
    cases cs with
    | nil => simp [List.flatMap_cons, hexByte] at h
    | cons c cs =>
      rw [List.flatMap_cons, List.flatMap_cons] at h
      obtain ⟨hb, hr⟩ := List.append_inj h (by rw [length_hexByte, length_hexByte])
      rw [hexByte_inj hb, ih hr]

/-- Two build IDs that name the same debug file are the same ID. -/
theorem buildIdPath_inj {a b : List Byte} {path : Name} (ha : buildIdPath a = .ok path)
    (hb : buildIdPath b = .ok path) : a = b := by
  match a, b, ha, hb with
  | x :: xs, y :: ys, ha, hb =>
    simp only [buildIdPath, Except.ok.injEq] at ha hb
    have h := ha.trans hb.symm
    simp only [List.append_assoc] at h
    obtain ⟨hx, h⟩ := List.append_inj (List.append_cancel_left h) (by rw [length_hexByte, length_hexByte])
    rw [hexByte_inj hx, flatMap_hexByte_inj (List.append_cancel_right (List.append_cancel_left h))]

theorem buildIdPath_inj_on_deadbeef :
    buildIdPath [0xde, 0xad, 0xbe, 0xef] = .ok (lit ".build-id/de/adbeef.debug") ∧
    buildIdPath [0xde, 0xad, 0xbe, 0xef] = .ok (lit ".build-id/de/adbeef.debug") ∧
    ([0xde, 0xad, 0xbe, 0xef] : List Byte) = [0xde, 0xad, 0xbe, 0xef] := by
  refine ⟨?h, ?h, buildIdPath_inj ?h ?h⟩
  decide

namespace NotesIterator

theorem findBuildId_visit {o : Object} {last it : NotesIterator} {fuel : Nat} {ds : List NoteDesc}
    (h : visit o last fuel it = .ok ds) : findBuildId o last fuel it = .ok (ds.find? NoteDesc.isBuildId) := by
  induction fuel generalizing it ds with
  | zero => cases h
  | succ fuel ih =>
    rw [visit] at h
    rw [findBuildId]
    split at h
    · next he => cases h; rw [if_pos he]; rfl
    · next he =>
      rw [if_neg he]
      obtain ⟨it', hn, h⟩ := Except.bind_eq_ok.mp h
      obtain ⟨ds', hv, h⟩ := Except.bind_eq_ok.mp h
      cases h
      by_cases hb : it.deref.isBuildId
      · rw [if_pos (by simpa [NoteDesc.isBuildId] using hb), List.find?_cons_of_pos _ hb]
      · rw [if_neg (by simpa [NoteDesc.isBuildId] using hb), List.find?_cons_of_neg _ hb, hn, Except.ok_bind,
          ih hv]

end NotesIterator

/-- For every object whose loop over `notes()` visits the notes `ds`, the
build-ID step of `getDebug` asks the context for the path that spells the
descriptor of the first note of `ds` named `GNU` of type `NT_GNU_BUILD_ID`,
reading no note after it, and keeps that descriptor as `buildID`; with no
such note it asks for nothing and `buildID` stays empty; and when that note's
descriptor is empty the code reads `buildID[0]` of an empty vector. -/
theorem buildIdLookup_notes (o : Object) (fuel : Nat) (getDebugImage : Name → Option Object)
    {ds : List NoteDesc} (h : o.notes fuel = .ok ds) :
    o.buildIdLookup fuel getDebugImage =
      match ds.find? NoteDesc.isBuildId with
      | none => .ok (none, [])
      | some d => (buildIdPath d.data).map fun path => (getDebugImage path, d.data) := by
  rw [Object.notes] at h
  obtain ⟨b, hb, h⟩ := Except.bind_eq_ok.mp h
  obtain ⟨e, he, hv⟩ := Except.bind_eq_ok.mp h
  rw [Object.buildIdLookup, hb, Except.ok_bind, he, Except.ok_bind, NotesIterator.findBuildId_visit hv,
    Except.ok_bind]
  cases ds.find? NoteDesc.isBuildId with
  | none => rfl
  | some d => cases buildIdPath d.data <;> rfl

set_option maxRecDepth 8000 in
theorem buildIdLookup_notes_on_build_id :
    let o := noteObject buildIdNote.encode
    let ds := ((o.notes 2).toOption).getD []
    o.notes 2 = .ok ds ∧
    o.buildIdLookup 2 (fun _ => none) =
      match ds.find? NoteDesc.isBuildId with
      | none => .ok (none, [])
      | some d => (buildIdPath d.data).map fun path => ((fun _ => none : Name → Option Object) path, d.data) := by
  refine ⟨?h, buildIdLookup_notes _ 2 _ ?h⟩
  decide

end PstackElf
