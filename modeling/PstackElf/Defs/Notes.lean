import PstackElf.Defs.Object

/-! The notes of an object. `Notes::iterator` walks the `PT_NOTE` segments in
the order of `getSegments(PT_NOTE)`, reading one `Nhdr` at a time from a view
of the current segment, and a `NoteDesc` gives the name and the descriptor of
the note it stands on. The iterator's members `readNote`, `operator==` and
`operator*`, `NoteDesc`'s constructor and `type()`, and `roundup2` are in
headers outside the sources and are modelled from the spec; `startSection`,
`operator++`, `name()` and `data()` are translated from `elf.cc`. -/

namespace PstackElf

def roundup2 {w : Nat} (v a : BitVec w) : BitVec w := (v + a - 1) / a * a

structure NoteDesc where
  note : Nhdr
  io : Reader
  deriving DecidableEq

namespace NoteDesc

def name (d : NoteDesc) : Name := d.io.readString 12

def data (d : NoteDesc) : Reader :=
  d.io.view (12 + (roundup2 d.note.n_namesz 4).toNat) d.note.n_descsz.toNat

def type (d : NoteDesc) : Word := d.note.n_type

end NoteDesc

structure NotesIterator where
  phdrs : List Phdr
  phdrsi : Nat
  offset : Off
  curNote : Nhdr
  io : Reader

namespace NotesIterator

variable (o : Object)

def readNote (it : NotesIterator) : Except Fault NotesIterator :=
  it.io.readNhdr it.offset.toNat >>= fun n => .ok { it with curNote := n }

def startSection (it : NotesIterator) (p : Phdr) : NotesIterator :=
  { it with offset := 0, io := o.io.view p.p_offset.toNat p.p_filesz.toNat }

def create (begin : Bool) : Except Fault NotesIterator :=
  let phdrs := o.getSegments PT_NOTE
  let it : NotesIterator := ⟨phdrs, if begin then 0 else phdrs.length, 0, default, []⟩
  match phdrs[it.phdrsi]? with
  | some p => (it.startSection o p).readNote
  | none => .ok it

/-- `operator++`: past the note's header, name and descriptor, each rounded
up to 4; on to the next segment once that reaches `p_filesz`. Incrementing
`end()` dereferences `phdrs.end()`. -/
def next (it : NotesIterator) : Except Fault NotesIterator :=
  match it.phdrs[it.phdrsi]? with
  | none => .error .outOfRange
  | some p =>
    let newOff := roundup2 (it.offset + 12 + it.curNote.n_namesz.zeroExtend 64) 4
    let newOff := roundup2 (newOff + it.curNote.n_descsz.zeroExtend 64) 4
    if p.p_filesz ≤ newOff then
      match it.phdrs[it.phdrsi + 1]? with
      | none => .ok { it with phdrsi := it.phdrsi + 1, offset := 0 }
      | some p' => ({ it with phdrsi := it.phdrsi + 1 }.startSection o p').readNote
    else { it with offset := newOff }.readNote

def eq (a b : NotesIterator) : Bool := a.phdrsi == b.phdrsi && a.offset == b.offset

def deref (it : NotesIterator) : NoteDesc := ⟨it.curNote, it.io.drop it.offset.toNat⟩

/-- The loop `for (auto &note : notes())` from `it` until it equals `last`:
the notes it visits, one `operator++` after each; `fuel` bounds the loop. -/
def visit (last : NotesIterator) : Nat → NotesIterator → Except Fault (List NoteDesc)
  | 0, _ => .error .outOfFuel
  | fuel + 1, it =>
    if it.eq last then .ok []
    else it.next o >>= fun it' => visit last fuel it' >>= fun ds => .ok (it.deref :: ds)

end NotesIterator

def Object.notes (o : Object) (fuel : Nat) : Except Fault (List NoteDesc) :=
  NotesIterator.create o true >>= fun b =>
  NotesIterator.create o false >>= fun e => NotesIterator.visit o e fuel b

end PstackElf
