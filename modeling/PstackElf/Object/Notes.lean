import PstackElf.Defs.Notes
import PstackElf.Defs.Image

/-! The loop over `notes()` on segments that hold the gABI encoding of their
notes. A `Note` carries its name and descriptor with the padding after each;
`NotesIterator.At` says where the iterator stands, `operator++` is shown to
move it to the next note of the segment, to the first note of the next
segment, or past the last segment, and `visit_at` runs the loop by induction
on its fuel. The image after it shows a nameless note, whose `name()` reads
the descriptor, and an empty segment, on which `begin()` reads past the end. -/

namespace PstackElf

theorem roundup2_four_toNat {w : Nat} (v : BitVec w) (hw : 4 < 2 ^ w) (h : v.toNat + 3 < 2 ^ w) :
    (roundup2 v 4).toNat = (v.toNat + 3) / 4 * 4 := by
  have h4 : (4 : BitVec w).toNat = 4 := by simp [Nat.mod_eq_of_lt hw]
  have h3 : (v + 4 - 1).toNat = v.toNat + 3 := by
    rw [show v + 4 - 1 = v + 3 by ring, BitVec.toNat_add]
    simp [Nat.mod_eq_of_lt (by omega : 3 < 2 ^ w), Nat.mod_eq_of_lt h]
  rw [roundup2, BitVec.toNat_mul, BitVec.toNat_udiv, h3, h4]
  exact Nat.mod_eq_of_lt (by omega)

theorem Nhdr.decode_encodeWords (a b c : Word) : Nhdr.decode (encodeWords [a, b, c]) = ⟨a, b, c⟩ := by
  simp [Nhdr.decode, field, encodeWords, decodeLE_encodeLE, Nat.mod_eq_of_lt (BitVec.isLt _),
    List.drop_append_eq_append_drop, List.take_append_eq_append_take, List.drop_eq_nil_of_le,
    List.take_of_length_le]

def align4 (v : Nat) : Nat := (v + 3) / 4 * 4

/-- A note as the gABI lays it out: its type, its name field and the padding
after it, and its descriptor and the padding after it; the name's size rounded
up to 4, and the descriptor's size, fit the 32-bit fields of the header. -/
structure Note where
  n_type : Word
  name : List Byte
  namePad : List Byte
  desc : List Byte
  descPad : List Byte
  name_lt : name.length + 3 < 2 ^ 32
  desc_lt : desc.length < 2 ^ 32
  namePad_length : namePad.length = align4 name.length - name.length
  descPad_length : descPad.length = align4 desc.length - desc.length

namespace Note

def header (n : Note) : Nhdr := ⟨BitVec.ofNat 32 n.name.length, BitVec.ofNat 32 n.desc.length, n.n_type⟩

def encode (n : Note) : List Byte :=
  encodeWords [n.header.n_namesz, n.header.n_descsz, n.header.n_type] ++ n.name ++ n.namePad ++
    n.desc ++ n.descPad

theorem length_encode (n : Note) :
    n.encode.length = 12 + align4 n.name.length + align4 n.desc.length := by
  have := n.namePad_length
  have := n.descPad_length
  simp only [encode, List.length_append, length_encodeWords, List.length_cons, List.length_nil, align4] at *
  omega

theorem four_dvd_length_encode (ns : List Note) : 4 ∣ (ns.flatMap encode).length := by
  induction ns with
  | nil => simp
  | cons n ns ih =>
    rw [List.flatMap_cons, List.length_append, length_encode]
    unfold align4
    omega

variable (n : Note) (post : List Byte)

theorem encode_eq : n.encode =
    encodeWords [n.header.n_namesz, n.header.n_descsz, n.header.n_type] ++
      (n.name ++ (n.namePad ++ n.desc ++ n.descPad)) := by
  simp [encode]

theorem readNhdr_encode (pre : List Byte) :
    Reader.readNhdr (pre ++ n.encode ++ post) pre.length = .ok n.header := by
  have h := Reader.readBytes_append pre (encodeWords [n.header.n_namesz, n.header.n_descsz, n.header.n_type])
    (n.name ++ (n.namePad ++ n.desc ++ n.descPad) ++ post)
  simp only [length_encodeWords, List.length_cons, List.length_nil] at h
  rw [encode_eq, List.append_assoc pre, List.append_assoc _ _ post, ← List.append_assoc pre, Reader.readNhdr, h,
    Except.map_ok, Nhdr.decode_encodeWords]

theorem drop_twelve_encode : (n.encode ++ post).drop 12 = n.name ++ (n.namePad ++ n.desc ++ n.descPad ++ post) := by
  rw [encode_eq, List.append_assoc, List.drop_left' (by simp)]
  simp

theorem readString_encode (h0 : (0 : Byte) ∈ n.name) :
    Reader.readString (n.encode ++ post) 12 = n.name.takeWhile (· != 0) := by
  rw [Reader.readString, drop_twelve_encode, List.takeWhile_append, if_neg]
  intro hlen
  have hall := List.takeWhile_eq_self_iff.mp ((List.takeWhile_prefix _).eq_of_length hlen)
  simpa using hall 0 h0

theorem toNat_namesz : n.header.n_namesz.toNat = n.name.length :=
  Nat.mod_eq_of_lt (by have := n.name_lt; omega)

theorem toNat_descsz : n.header.n_descsz.toNat = n.desc.length := Nat.mod_eq_of_lt n.desc_lt

theorem view_encode :
    Reader.view (n.encode ++ post) (12 + (roundup2 n.header.n_namesz 4).toNat) n.header.n_descsz.toNat =
      n.desc := by
  have hr : (roundup2 n.header.n_namesz 4).toNat = n.name.length + n.namePad.length := by
    rw [roundup2_four_toNat _ (by norm_num) (by rw [toNat_namesz]; exact n.name_lt), toNat_namesz,
      n.namePad_length]
    unfold align4
    omega
  rw [Reader.view, hr, toNat_descsz, ← List.drop_drop, drop_twelve_encode, ← List.drop_drop,
    List.drop_left' rfl]
  simp [List.append_assoc]

end Note

/-- A `PT_NOTE` header whose bytes in the file are exactly the encoding of
`ns`, a non-empty list of notes each with a NUL in its name field. -/
structure NoteSegment (io : Reader) (p : Phdr) (ns : List Note) : Prop where
  bytes : io.view p.p_offset.toNat p.p_filesz.toNat = ns.flatMap Note.encode
  size : p.p_filesz.toNat = (ns.flatMap Note.encode).length
  nonempty : ns ≠ []
  named : ∀ n ∈ ns, (0 : Byte) ∈ n.name

theorem nextOffset_toNat (off : Off) (n : Note) (h4 : 4 ∣ off.toNat) (hlt : off.toNat + n.encode.length < 2 ^ 64) :
    (roundup2 (roundup2 (off + 12 + n.header.n_namesz.zeroExtend 64) 4 + n.header.n_descsz.zeroExtend 64) 4).toNat =
      off.toNat + n.encode.length := by
  rw [Note.length_encode] at hlt ⊢
  have hn := n.toNat_namesz
  have hd := n.toNat_descsz
  have := n.name_lt
  have := n.desc_lt
  have h12 : (12 : Off).toNat = 12 := rfl
  unfold align4 at hlt ⊢
  have h1 : (off + 12 + n.header.n_namesz.zeroExtend 64).toNat = off.toNat + 12 + n.name.length := by
    simp only [BitVec.toNat_add, BitVec.toNat_setWidth, hn, h12]
    omega
  have h2 : (roundup2 (off + 12 + n.header.n_namesz.zeroExtend 64) 4).toNat =
      off.toNat + 12 + (n.name.length + 3) / 4 * 4 := by
    rw [roundup2_four_toNat _ (by norm_num) (by omega), h1]
    omega
  have h3 : (roundup2 (off + 12 + n.header.n_namesz.zeroExtend 64) 4 + n.header.n_descsz.zeroExtend 64).toNat =
      off.toNat + 12 + (n.name.length + 3) / 4 * 4 + n.desc.length := by
    simp only [BitVec.toNat_add, BitVec.toNat_setWidth, hd, h2]
    omega
  rw [roundup2_four_toNat _ (by norm_num) (by omega), h3]
  omega

namespace NotesIterator

/-- The iterator stands on note `n` of segment `i` of `segs`, whose header is
`p`, after the notes `pre` of that segment and before the notes `post`. -/
structure At (segs : List (Phdr × List Note)) (it : NotesIterator) (i : Nat) (p : Phdr)
    (pre : List Note) (n : Note) (post : List Note) : Prop where
  phdrs : it.phdrs = segs.map Prod.fst
  phdrsi : it.phdrsi = i
  seg : segs[i]? = some (p, pre ++ n :: post)
  io : it.io = pre.flatMap Note.encode ++ n.encode ++ post.flatMap Note.encode
  offset : it.offset.toNat = (pre.flatMap Note.encode).length
  curNote : it.curNote = n.header

variable {o : Object} {segs : List (Phdr × List Note)} {it : NotesIterator} {i : Nat} {p : Phdr}
  {pre : List Note} {n : Note} {post : List Note}

theorem At.phdr (hat : At segs it i p pre n post) : it.phdrs[it.phdrsi]? = some p := by
  rw [hat.phdrs, hat.phdrsi, List.getElem?_map, hat.seg]
  rfl

theorem At.lt_length (hat : At segs it i p pre n post) : i < segs.length :=
  (List.getElem?_eq_some_iff.mp hat.seg).1

theorem At.deref (hat : At segs it i p pre n post) (h0 : (0 : Byte) ∈ n.name) :
    (it.deref.type, it.deref.name, it.deref.data) = (n.n_type, n.name.takeWhile (· != 0), n.desc) := by
  have hd : it.deref = ⟨n.header, n.encode ++ post.flatMap Note.encode⟩ := by
    rw [NotesIterator.deref, hat.curNote, hat.io, hat.offset, List.append_assoc, List.drop_left]
  rw [hd, NoteDesc.type, NoteDesc.name, NoteDesc.data, Note.readString_encode _ _ h0, Note.view_encode]
  rfl

theorem At.nextOffset (hat : At segs it i p pre n post) (hseg : NoteSegment o.io p (pre ++ n :: post)) :
    (roundup2 (roundup2 (it.offset + 12 + it.curNote.n_namesz.zeroExtend 64) 4 +
      it.curNote.n_descsz.zeroExtend 64) 4).toNat = ((pre ++ [n]).flatMap Note.encode).length := by
  have hsz := hseg.size
  have hlt := p.p_filesz.isLt
  have ho := hat.offset
  simp only [List.flatMap_append, List.flatMap_cons, List.length_append] at hsz
  rw [hat.curNote, nextOffset_toNat _ _ (hat.offset ▸ Note.four_dvd_length_encode pre) (by omega), hat.offset]
  simp

theorem At.io_next (hat : At segs it i p pre n (m :: post)) :
    it.io = (pre ++ [n]).flatMap Note.encode ++ m.encode ++ post.flatMap Note.encode := by
  rw [hat.io]
  simp

theorem At.next_within {m : Note} (hat : At segs it i p pre n (m :: post))
    (hseg : NoteSegment o.io p (pre ++ n :: m :: post)) :
    ∃ it', it.next o = .ok it' ∧ At segs it' i p (pre ++ [n]) m post := by
  have hoff := hat.nextOffset hseg
  have hlt : ((pre ++ [n]).flatMap Note.encode).length < p.p_filesz.toNat := by
    have hm := m.length_encode
    rw [hseg.size]
    simp only [List.flatMap_append, List.flatMap_cons, List.flatMap_nil, List.length_append, List.append_nil]
    omega
  rw [NotesIterator.next, hat.phdr]
  dsimp only
  rw [if_neg (by rw [BitVec.le_def, hoff]; omega), NotesIterator.readNote]
  dsimp only
  rw [hoff, hat.io_next, Note.readNhdr_encode, Except.ok_bind]
  exact ⟨_, rfl, hat.phdrs, hat.phdrsi, by rw [hat.seg]; simp, rfl, hoff, rfl⟩

theorem At.filesz_le (hat : At segs it i p pre n []) (hseg : NoteSegment o.io p (pre ++ [n])) :
    p.p_filesz ≤ roundup2 (roundup2 (it.offset + 12 + it.curNote.n_namesz.zeroExtend 64) 4 +
      it.curNote.n_descsz.zeroExtend 64) 4 := by
  rw [BitVec.le_def, hat.nextOffset hseg, hseg.size]

theorem At.next_segment {p' : Phdr} {m : Note} {post' : List Note} (hat : At segs it i p pre n [])
    (hseg : NoteSegment o.io p (pre ++ [n])) (hnext : segs[i + 1]? = some (p', m :: post'))
    (hseg' : NoteSegment o.io p' (m :: post')) :
    ∃ it', it.next o = .ok it' ∧ At segs it' (i + 1) p' [] m post' := by
  have h0 := m.readNhdr_encode (post'.flatMap Note.encode) []
  rw [List.nil_append, List.length_nil] at h0
  rw [NotesIterator.next, hat.phdr]
  dsimp only
  rw [if_pos (hat.filesz_le hseg), hat.phdrs, hat.phdrsi, List.getElem?_map, hnext]
  dsimp only [Option.map_some', startSection, readNote]
  rw [hseg'.bytes, List.flatMap_cons, show (0 : Off).toNat = 0 from rfl, h0, Except.ok_bind]
  exact ⟨_, rfl, rfl, rfl, hnext, by simp, rfl, rfl⟩

theorem At.next_last (hat : At segs it i p pre n []) (hseg : NoteSegment o.io p (pre ++ [n]))
    (hnext : segs[i + 1]? = none) :
    it.next o = .ok { it with phdrsi := i + 1, offset := 0 } := by
  rw [NotesIterator.next, hat.phdr]
  dsimp only
  rw [if_pos (hat.filesz_le hseg), hat.phdrs, hat.phdrsi, List.getElem?_map, hnext]
  rfl

theorem At.eq_false {e : NotesIterator} (hat : At segs it i p pre n post) (he : e.phdrsi = segs.length) :
    it.eq e = false := by
  simp [NotesIterator.eq, hat.phdrsi, he, Nat.ne_of_lt hat.lt_length]

theorem At.segment (hat : At segs it i p pre n post) (hsegs : ∀ s ∈ segs, NoteSegment o.io s.1 s.2) :
    NoteSegment o.io p (pre ++ n :: post) :=
  hsegs _ (List.mem_iff_getElem?.mpr ⟨i, hat.seg⟩)

theorem visit_at (hsegs : ∀ s ∈ segs, NoteSegment o.io s.1 s.2) {e : NotesIterator}
    (he : e.phdrsi = segs.length ∧ e.offset = 0) (fuel : Nat) :
    ∀ {it i p pre n post}, At segs it i p pre n post →
    post.length + ((segs.drop (i + 1)).flatMap Prod.snd).length + 1 < fuel →
    ∃ ds, visit o e fuel it = .ok ds ∧ ds.map (fun d => (d.type, d.name, d.data)) =
      (n :: post ++ (segs.drop (i + 1)).flatMap Prod.snd).map
        fun n => (n.n_type, n.name.takeWhile (· != 0), n.desc) := by
  induction fuel with
  | zero => intro _ _ _ _ _ _ _ hf; omega
  | succ fuel ih =>
    intro it i p pre n post hat hf
    have hseg := hat.segment hsegs
    have h0 : (0 : Byte) ∈ n.name := hseg.named n (by simp)
    rw [visit, if_neg (by rw [hat.eq_false he.1]; decide)]
    cases post with
    | cons m post =>
      obtain ⟨it', hnext, hat'⟩ := hat.next_within hseg
      obtain ⟨ds, hv, hds⟩ := ih hat' (by simp only [List.length_cons] at hf; omega)
      rw [hnext, Except.ok_bind, hv, Except.ok_bind]
      exact ⟨_, rfl, by rw [List.map_cons, hds, hat.deref h0]; simp⟩
    | nil =>
      cases hn : segs[i + 1]? with
      | none =>
        have hlen : segs.length = i + 1 :=
          Nat.le_antisymm (List.getElem?_eq_none_iff.mp hn) hat.lt_length
        obtain ⟨f, rfl⟩ : ∃ f, fuel = f + 1 := ⟨fuel - 1, by omega⟩
        rw [hat.next_last hseg hn, Except.ok_bind, visit,
          if_pos (by simp [NotesIterator.eq, he.1, he.2, hlen])]
        exact ⟨_, rfl, by simp [List.drop_eq_nil_of_le (Nat.le_of_eq hlen), hat.deref h0]⟩
      | some s =>
        obtain ⟨p', ns'⟩ := s
        have hseg' : NoteSegment o.io p' ns' := hsegs _ (List.mem_iff_getElem?.mpr ⟨i + 1, hn⟩)
        obtain ⟨m, post', rfl⟩ := List.exists_cons_of_ne_nil hseg'.nonempty
        obtain ⟨it', hnext, hat'⟩ := hat.next_segment hseg hn hseg'
        have hdrop : (segs.drop (i + 1)).flatMap Prod.snd =
            m :: post' ++ (segs.drop (i + 1 + 1)).flatMap Prod.snd := by
          obtain ⟨hlt, hget⟩ := List.getElem?_eq_some_iff.mp hn
          rw [List.drop_eq_getElem_cons hlt, hget, List.flatMap_cons]
        obtain ⟨ds, hv, hds⟩ := ih hat' (by
          rw [hdrop] at hf; simp only [List.length_cons, List.length_nil, List.length_append] at hf ⊢; omega)
        rw [hnext, Except.ok_bind, hv, Except.ok_bind]
        exact ⟨_, rfl, by rw [List.map_cons, hds, hat.deref h0, hdrop]; simp⟩

theorem create_end : create o false =
    .ok ⟨o.getSegments PT_NOTE, (o.getSegments PT_NOTE).length, 0, default, []⟩ := by
  simp [create]

theorem create_begin {p : Phdr} {m : Note} {post : List Note} {rest : List (Phdr × List Note)}
    (hps : o.getSegments PT_NOTE = ((p, m :: post) :: rest).map Prod.fst)
    (hseg : NoteSegment o.io p (m :: post)) :
    ∃ b, create o true = .ok b ∧ At ((p, m :: post) :: rest) b 0 p [] m post := by
  have h0 := m.readNhdr_encode (post.flatMap Note.encode) []
  rw [List.nil_append, List.length_nil] at h0
  simp only [create, hps, if_true, List.map_cons, List.getElem?_cons_zero, startSection, readNote]
  rw [hseg.bytes, List.flatMap_cons, show (0 : Off).toNat = 0 from rfl, h0, Except.ok_bind]
  exact ⟨_, rfl, rfl, rfl, by simp, by simp, rfl, rfl⟩

end NotesIterator

/-- For `PT_NOTE` segments, in the order of `getSegments(PT_NOTE)`, whose
bytes are exactly the gABI encoding of non-empty lists of notes, each with a
NUL in its name field, the loop over `notes()` visits every note, segment
after segment and in each in file order, with its type, its name up to the
NUL and its descriptor, and then stops at `end()`. -/
theorem notes_visit_encoded (o : Object) (segs : List (Phdr × List Note))
    (hps : o.getSegments PT_NOTE = segs.map Prod.fst) (hsegs : ∀ s ∈ segs, NoteSegment o.io s.1 s.2)
    (fuel : Nat) (hfuel : (segs.flatMap Prod.snd).length < fuel) :
    ∃ ds, o.notes fuel = .ok ds ∧ ds.map (fun d => (d.type, d.name, d.data)) =
      (segs.flatMap Prod.snd).map fun n => (n.n_type, n.name.takeWhile (· != 0), n.desc) := by
  rw [Object.notes]
  cases segs with
  | nil =>
    obtain ⟨f, rfl⟩ : ∃ f, fuel = f + 1 := ⟨fuel - 1, by simp at hfuel; omega⟩
    simp [NotesIterator.create, hps, NotesIterator.visit, NotesIterator.eq]
  | cons s rest =>
    obtain ⟨p, ns⟩ := s
    have hseg := hsegs _ (List.mem_cons_self _ _)
    obtain ⟨m, post, rfl⟩ := List.exists_cons_of_ne_nil hseg.nonempty
    obtain ⟨b, hb, hat⟩ := NotesIterator.create_begin hps hseg
    rw [hb, Except.ok_bind, NotesIterator.create_end, Except.ok_bind]
    refine (NotesIterator.visit_at hsegs ?_ fuel hat ?_).imp fun ds h => ⟨h.1, by rw [h.2]; simp⟩
    · exact ⟨by simp [hps], rfl⟩
    · simp at hfuel ⊢
      omega

def noteImage (notes : List Byte) : Reader :=
  segmentImage [⟨PT_NOTE, 120, 0, BitVec.ofNat 64 notes.length, BitVec.ofNat 64 notes.length⟩] ++ notes

def noteObject (notes : List Byte) : Object :=
  Object.initial PhdrSort.insertion (noteImage notes) false (Ehdr.decode (noteImage notes))

def buildIdNote : Note :=
  ⟨3, lit "GNU" ++ [0], [], [0xde, 0xad, 0xbe, 0xef], [], by decide, by decide, by decide, by decide⟩

set_option maxRecDepth 8000 in
theorem notes_visit_encoded_on_build_id :
    (noteObject buildIdNote.encode).getSegments PT_NOTE = [(⟨PT_NOTE, 120, 0, 20, 20⟩, [buildIdNote])].map Prod.fst ∧
    (∀ s ∈ [((⟨PT_NOTE, 120, 0, 20, 20⟩ : Phdr), [buildIdNote])],
      NoteSegment (noteObject buildIdNote.encode).io s.1 s.2) ∧
    ([((⟨PT_NOTE, 120, 0, 20, 20⟩ : Phdr), [buildIdNote])].flatMap Prod.snd).length < 2 ∧
    ∃ ds, (noteObject buildIdNote.encode).notes 2 = .ok ds ∧ ds.map (fun d => (d.type, d.name, d.data)) =
      ([((⟨PT_NOTE, 120, 0, 20, 20⟩ : Phdr), [buildIdNote])].flatMap Prod.snd).map
        fun n => (n.n_type, n.name.takeWhile (· != 0), n.desc) :=
  have hps : (noteObject buildIdNote.encode).getSegments PT_NOTE =
      [((⟨PT_NOTE, 120, 0, 20, 20⟩ : Phdr), [buildIdNote])].map Prod.fst := by decide
  have hsegs : ∀ s ∈ [((⟨PT_NOTE, 120, 0, 20, 20⟩ : Phdr), [buildIdNote])],
      NoteSegment (noteObject buildIdNote.encode).io s.1 s.2 := by
    simp only [List.mem_singleton, forall_eq]
    exact ⟨by decide, by decide, List.cons_ne_nil _ _, by decide⟩
  ⟨hps, hsegs, by decide, notes_visit_encoded _ _ hps hsegs 2 (by decide)⟩

/-- A note with no name (`n_namesz = 0`) and the descriptor `1 2 3 4`:
`name()` reads the descriptor, not the empty string. And an empty `PT_NOTE`
segment: `begin()` reads a header past its end, a read error, where the
notes of the segment are none. -/
theorem notes_misread_nameless_and_empty :
    ((noteObject (⟨1, [], [], [1, 2, 3, 4], [], by decide, by decide, by decide, by decide⟩ : Note).encode).notes
      2).map (List.map NoteDesc.name) = .ok [[1, 2, 3, 4]] ∧
    (noteObject []).notes 1 = .error .readError := by
  decide

end PstackElf
