import PstackElf.Defs.Notes

/-! `Object::getDebug()`: the search for a separate debug companion, made on
the first call and latched by `debugLoaded`, which is set before the search
begins. The search tries a `<dir>/<execName>.debug` that loads, the file the
build-ID note names, the file `.gnu_debuglink` names, and debuginfod, in that
order. The steps that read the file system or the network enter by their
outcomes (`Discovery`); the walk over the notes, the path it spells and the
read of `.gnu_debuglink` are the object's own and can fault, as can the two
writes to `*context.debug` made without checking that the stream is set. A
companion found after the first probe is compared with the object by the
`sh_addr` of their `.dynamic` sections and, when they differ and the context
has a debug stream, shifted by the difference (prelink compensation). -/

namespace PstackElf

/-- The parts of the `Context` that `getDebug` reads: `options.noExtDebug`,
whether the stream `context.debug` is set, and `verbose`. -/
structure DebugContext where
  noExtDebug : Bool
  debug : Bool
  verbose : Nat

/-- Debuginfod for a build ID: not asked (a build without `DEBUGINFOD`, or no
`context.debuginfod`), no file, or a file, whose `Object` may throw. -/
inductive Debuginfod where
  | off
  | failed
  | fetched (companion : Except Fault Object)

/-- The outcomes of the steps that look outside the object: the first
`<dir>/<execName>.debug` that loads, `context.getDebugImage`, the file a
`.gnu_debuglink` name leads to in a debug directory or beside the object, and
debuginfod. -/
structure Discovery where
  probe : Option Object
  getDebugImage : Name → Option Object
  debuglink : Name → Option Object
  debuginfod : Debuginfod

structure DebugState where
  debugLoaded : Bool
  debugObject : Option Object

def GNU_BUILD_ID : Word := 3

def hexDigit (d : Nat) : Byte := (lit "0123456789abcdef").getD d 0

/-- `std::setw(2) << int(b)` under `std::hex` with the fill `'0'`: two digits. -/
def hexByte (b : Byte) : Name := [hexDigit (b.toNat / 16), hexDigit (b.toNat % 16)]

/-- The path `getDebug` asks `getDebugImage` for: `.build-id/`, the first byte
of the ID, `/`, the other bytes, `.debug`. `buildID[0]` of an empty ID is past
the end of the vector. -/
def buildIdPath : List Byte → Except Fault Name
  | [] => .error .outOfRange
  | b :: bs => .ok (lit ".build-id/" ++ hexByte b ++ lit "/" ++ bs.flatMap hexByte ++ lit ".debug")

def NotesIterator.findBuildId (o : Object) (last : NotesIterator) : Nat → NotesIterator → Except Fault (Option NoteDesc)
  | 0, _ => .error .outOfFuel
  | fuel + 1, it =>
    if it.eq last then .ok none else
    if it.deref.name = lit "GNU" ∧ it.deref.type = GNU_BUILD_ID then .ok (some it.deref)
    else it.next o >>= findBuildId o last fuel

/-- The build-ID step of `getDebug`: the first build-ID note, its descriptor
read into `buildID`, and `context.getDebugImage` of the path it names; no
note leaves `buildID` empty and asks for nothing. -/
def Object.buildIdLookup (o : Object) (fuel : Nat) (getDebugImage : Name → Option Object) :
    Except Fault (Option Object × List Byte) := do
  let b ← NotesIterator.create o true
  let e ← NotesIterator.create o false
  match ← NotesIterator.findBuildId o e fuel b with
  | none => .ok (none, [])
  | some note =>
    let path ← buildIdPath note.data
    .ok (getDebugImage path, note.data)


/-- A write to `*context.debug` under `cond` in a line that does not check the
stream first: with no stream it dereferences a null pointer. -/
def DebugContext.write (context : DebugContext) (cond : Bool) : Except Fault Unit :=
  if cond && !context.debug then .error .outOfRange else .ok ()

namespace Object

variable (B : Build)

def debuglinkName (o : Object) : Except Fault (Option Name) :=
  let hdr := o.sectionAt (o.getSection (lit ".gnu_debuglink") SHT_PROGBITS)
  if hdr.present then (fun r => some (r.1.readString 0)) <$> hdr.io B o.io else .ok none

def debuglinkStep (disc : Discovery) (o : Object) (held : Option Object) : Except Fault (Option Object) :=
  if held.isSome then .ok held else (fun link => link.bind disc.debuglink) <$> o.debuglinkName B

def debuginfodStep (context : DebugContext) (disc : Discovery) (buildID : List Byte) (held : Option Object) :
    Except Fault (Option Object) :=
  if held.isNone && !buildID.isEmpty then
    match disc.debuginfod with
    | .off => .ok none
    | .failed => (fun _ => none) <$> context.write (context.verbose != 0)
    | .fetched r => some <$> r
  else .ok held

def prelink (context : DebugContext) (o c : Object) : Object :=
  let s := o.sectionAt (o.getSection (lit ".dynamic") SHT_NULL)
  let d := c.sectionAt (c.getSection (lit ".dynamic") SHT_NULL)
  if d.shdr.sh_addr ≠ s.shdr.sh_addr ∧ context.debug = true then
    c.shiftAddresses (s.shdr.sh_addr - d.shdr.sh_addr)
  else c

/-- The search of `getDebug()` after `debugLoaded` is set, from `held` in
`debugObject`: the result, and what `debugObject` holds when the search
returns or throws. A build-ID note always leaves a non-empty `buildID`, since
an empty descriptor faults. -/
def searchDebug (context : DebugContext) (disc : Discovery) (fuel : Nat) (o : Object) (held : Option Object) :
    Except Fault (Option Object) × Option Object :=
  match disc.probe with
  | some c => (.ok (some c), some c)
  | none =>
    match o.buildIdLookup fuel disc.getDebugImage with
    | .error e => (.error e, held)
    | .ok (byId, buildID) =>
      let held := if buildID.isEmpty then held else byId
      match o.debuglinkStep B disc held >>= debuginfodStep context disc buildID with
      | .error e => (.error e, held)
      | .ok none => ((fun _ => none) <$> context.write (decide (2 ≤ context.verbose)), none)
      | .ok (some c) =>
        match context.write (decide (2 ≤ context.verbose)) with
        | .error e => (.error e, some c)
        | .ok () => (.ok (some (o.prelink context c)), some (o.prelink context c))

end Object

/-- `getDebug()` on the object `o`: the companion returned, or the fault, and
the members as the call leaves them. -/
def getDebug (B : Build) (context : DebugContext) (disc : Discovery) (fuel : Nat) (o : Object) (st : DebugState) :
    Except Fault (Option Object) × DebugState :=
  if st.debugLoaded || context.noExtDebug then (.ok st.debugObject, st) else
  let r := o.searchDebug B context disc fuel st.debugObject
  (r.1, ⟨true, r.2⟩)

end PstackElf
