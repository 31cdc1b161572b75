import PstackElf.Object.Notes

/-! The loop over `notes()` ends on every image, whatever its `PT_NOTE`
segments hold. Each `operator++` either moves past at least the 12 bytes of
the header just read, within the view of the segment, or moves to the next
segment; so the iterator's rank (`NotesIterator.rank`) falls at each step
until it reaches `end()` or a header runs past its segment. The one
precondition is that offsets within the image do not wrap at `2^64`. -/

namespace PstackElf

namespace NotesIterator

variable (o : Object)

/-- The iterator stands on a header read within the view of one of the
object's `PT_NOTE` segments. -/
structure Live (it : NotesIterator) : Prop where
  phdrs : it.phdrs = o.getSegments PT_NOTE
  view : ∃ p, it.phdrs[it.phdrsi]? = some p ∧ it.io = o.io.view p.p_offset.toNat p.p_filesz.toNat
  read : it.offset.toNat + 12 ≤ it.io.length

def AtEnd (it : NotesIterator) : Prop :=
  it.phdrs = o.getSegments PT_NOTE ∧ it.phdrsi = it.phdrs.length ∧ it.offset = 0

/-- What is left of the walk: whole segments, each worth more than any offset
in the image, less the offset reached in the current one. -/
def rank (it : NotesIterator) : Nat := (it.phdrs.length - it.phdrsi) * (o.io.length + 1) - it.offset.toNat

variable {o}

theorem readNote_eq (it : NotesIterator) :
    it.readNote = if it.offset.toNat + 12 ≤ it.io.length then
      .ok { it with curNote := Nhdr.decode ((it.io.drop it.offset.toNat).take 12) } else .error .readError := by
  unfold readNote Reader.readNhdr Reader.readBytes
  split <;> rfl

theorem le_nextOffset (off : Off) (h : Nhdr) (hoff : off.toNat + 2 ^ 34 ≤ 2 ^ 64) :
    off.toNat + 12 ≤
      (roundup2 (roundup2 (off + 12 + h.n_namesz.zeroExtend 64) 4 + h.n_descsz.zeroExtend 64) 4).toNat := by
  have hn := h.n_namesz.isLt
  have hd := h.n_descsz.isLt
  have e1 : (off + 12 + h.n_namesz.zeroExtend 64).toNat = off.toNat + 12 + h.n_namesz.toNat := by
    simp only [BitVec.toNat_add, BitVec.toNat_setWidth, show (12 : Off).toNat = 12 from rfl]
    omega
  have e2 := roundup2_four_toNat (off + 12 + h.n_namesz.zeroExtend 64) (by norm_num) (by omega)
  have e3 : (roundup2 (off + 12 + h.n_namesz.zeroExtend 64) 4 + h.n_descsz.zeroExtend 64).toNat =
      (roundup2 (off + 12 + h.n_namesz.zeroExtend 64) 4).toNat + h.n_descsz.toNat := by
    simp only [BitVec.toNat_add, BitVec.toNat_setWidth]
    omega
  have e4 := roundup2_four_toNat (roundup2 (off + 12 + h.n_namesz.zeroExtend 64) 4 + h.n_descsz.zeroExtend 64)
    (by norm_num) (by omega)
  omega

theorem Live.offset_le {it : NotesIterator} (hl : Live o it) : it.offset.toNat + 12 ≤ o.io.length := by
  obtain ⟨p, -, hio⟩ := hl.view
  have := hl.read
  rw [hio, Reader.length_view] at this
  omega

theorem live_of_start {it : NotesIterator} {i : Nat} {p : Phdr} (hphdrs : it.phdrs = o.getSegments PT_NOTE)
    (hp : it.phdrs[i]? = some p) {it' : NotesIterator}
    (h : ({ it with phdrsi := i }.startSection o p).readNote = .ok it') : Live o it' := by
  rw [readNote_eq] at h
  split at h
  · next hr => cases h; exact ⟨hphdrs, ⟨p, hp, rfl⟩, hr⟩
  · cases h

theorem next_live (hio : o.io.length + 2 ^ 34 ≤ 2 ^ 64) {it : NotesIterator} (hl : Live o it) :
    it.next o = .error .readError ∨
      ∃ it', it.next o = .ok it' ∧ ((Live o it' ∧ rank o it' < rank o it) ∨ AtEnd o it') := by
  obtain ⟨p, hp, hview⟩ := hl.view
  have hoff := hl.offset_le
  have hi := (List.getElem?_eq_some_iff.mp hp).1
  unfold next
  rw [hp]
  dsimp only
  split
  · next hle =>
    cases hp' : it.phdrs[it.phdrsi + 1]? with
    | none =>
      have := List.getElem?_eq_none_iff.mp hp'
      exact .inr ⟨_, rfl, .inr ⟨hl.phdrs, by dsimp only; omega, rfl⟩⟩
    | some p' =>
      dsimp only
      cases h : ({ it with phdrsi := it.phdrsi + 1 }.startSection o p').readNote with
      | error e =>
        rw [readNote_eq] at h
        split at h <;> cases h
        exact .inl rfl
      | ok it' =>
        refine .inr ⟨it', rfl, .inl ⟨live_of_start hl.phdrs hp' h, ?_⟩⟩
        rw [readNote_eq] at h
        split at h <;> cases h
        have := (List.getElem?_eq_some_iff.mp hp').1
        simp only [rank, startSection, show (0 : Off).toNat = 0 from rfl, Nat.sub_zero]
        rw [show it.phdrs.length - it.phdrsi = it.phdrs.length - (it.phdrsi + 1) + 1 by omega, Nat.succ_mul]
        omega
  · next hlt =>
    cases h : { it with offset := roundup2 (roundup2 (it.offset + 12 + it.curNote.n_namesz.zeroExtend 64) 4 +
        it.curNote.n_descsz.zeroExtend 64) 4 }.readNote with
    | error e =>
      rw [readNote_eq] at h
      split at h <;> cases h
      exact .inl rfl
    | ok it' =>
      rw [readNote_eq] at h
      split at h
      · next hr =>
        cases h
        refine .inr ⟨_, rfl, .inl ⟨⟨hl.phdrs, ⟨p, hp, hview⟩, hr⟩, ?_⟩⟩
        have hnext := le_nextOffset it.offset it.curNote (by omega)
        have : o.io.length + 1 ≤ (it.phdrs.length - it.phdrsi) * (o.io.length + 1) :=
          Nat.le_mul_of_pos_left _ (by omega)
        simp only [rank]
        omega
      · cases h

theorem Live.rank_pos {it : NotesIterator} (hl : Live o it) : 0 < rank o it := by
  obtain ⟨p, hp, -⟩ := hl.view
  have := (List.getElem?_eq_some_iff.mp hp).1
  have := hl.offset_le
  have : o.io.length + 1 ≤ (it.phdrs.length - it.phdrsi) * (o.io.length + 1) :=
    Nat.le_mul_of_pos_left _ (by omega)
  unfold rank
  omega

theorem visit_ends (hio : o.io.length + 2 ^ 34 ≤ 2 ^ 64) (fuel : Nat) {it : NotesIterator}
    (h : (Live o it ∧ rank o it < fuel) ∨ (AtEnd o it ∧ 0 < fuel)) :
    visit o ⟨o.getSegments PT_NOTE, (o.getSegments PT_NOTE).length, 0, default, []⟩ fuel it = .error .readError ∨
      ∃ ds, visit o ⟨o.getSegments PT_NOTE, (o.getSegments PT_NOTE).length, 0, default, []⟩ fuel it = .ok ds := by
  induction fuel generalizing it with
  | zero => rcases h with ⟨-, h⟩ | ⟨-, h⟩ <;> omega
  | succ fuel ih =>
    rw [visit]
    rcases h with ⟨hl, hr⟩ | ⟨⟨hp, hi, ho⟩, -⟩
    · obtain ⟨p, hp, -⟩ := hl.view
      have hlt := (List.getElem?_eq_some_iff.mp hp).1
      rw [if_neg (by simp only [eq, hl.phdrs] at hlt ⊢; simp; omega)]
      have := hl.rank_pos
      rcases next_live hio hl with hn | ⟨it', hn, h'⟩
      · rw [hn]; exact .inl rfl
      · rw [hn, Except.ok_bind]
        rcases ih (h'.imp (fun h => ⟨h.1, by omega⟩) (fun h => ⟨h, by omega⟩)) with hv | ⟨ds, hv⟩
        · rw [hv]; exact .inl rfl
        · rw [hv]; exact .inr ⟨_, rfl⟩
    · rw [if_pos (by simp [eq, hi, ho, hp])]
      exact .inr ⟨[], rfl⟩

end NotesIterator

/-- For every image whose offsets do not wrap at `2^64`, whatever its
`PT_NOTE` headers and their bytes (empty or overlapping segments, headers
whose sizes run past the segment, any padding), the loop over `notes()` ends
within (number of `PT_NOTE` headers) × (image size + 1) steps: with the notes
it visits, or with a read error where a header runs past its segment's bytes.
It never loops for ever and never increments `end()`. -/
theorem notes_ends (o : Object) (hio : o.io.length + 2 ^ 34 ≤ 2 ^ 64) (fuel : Nat)
    (hfuel : (o.getSegments PT_NOTE).length * (o.io.length + 1) < fuel) :
    o.notes fuel = .error .readError ∨ ∃ ds, o.notes fuel = .ok ds := by
  rw [Object.notes, NotesIterator.create_end]
  simp only [Except.ok_bind, NotesIterator.create, if_true]
  cases hp : (o.getSegments PT_NOTE)[0]? with
  | none =>
    have hlen := (List.getElem?_eq_none_iff.mp hp).antisymm (Nat.zero_le _)
    exact NotesIterator.visit_ends hio fuel (.inr ⟨⟨rfl, hlen.symm, rfl⟩, by omega⟩)
  | some p =>
    dsimp only
    cases h : (NotesIterator.startSection o ⟨o.getSegments PT_NOTE, 0, 0, default, []⟩ p).readNote with
    | error e =>
      rw [NotesIterator.readNote_eq] at h
      split at h <;> cases h
      exact .inl rfl
    | ok b =>
      refine NotesIterator.visit_ends hio fuel
        (.inl ⟨@NotesIterator.live_of_start o ⟨o.getSegments PT_NOTE, 0, 0, default, []⟩ 0 p rfl hp b h, ?_⟩)
      rw [NotesIterator.readNote_eq] at h
      split at h <;> cases h
      simpa [NotesIterator.rank, NotesIterator.startSection] using hfuel

/-- A `PT_NOTE` segment whose first header claims a name and a descriptor of
nearly `2^32` bytes each, followed by a second header. -/
def oversizedNotes : List Byte := encodeWords [0xfffffff0, 0xfffffff0, 1] ++ encodeWords [0, 0, 2]

set_option maxRecDepth 8000 in
theorem notes_ends_on_oversized :
    let o := noteObject oversizedNotes
    o.io.length + 2 ^ 34 ≤ 2 ^ 64 ∧ (o.getSegments PT_NOTE).length * (o.io.length + 1) < 1000 ∧
    (o.notes 1000 = .error .readError ∨ ∃ ds, o.notes 1000 = .ok ds) := by
  refine ⟨?hio, ?hf, notes_ends _ ?hio 1000 ?hf⟩ <;> decide

set_option maxRecDepth 8000 in
/-- The sizes of the first header carry the walk past the segment's end, so
the second header is never read. -/
example : ((noteObject oversizedNotes).notes 1000).map (List.map NoteDesc.type) = .ok [1] := by
  decide

end PstackElf
