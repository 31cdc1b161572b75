import PstackElf.Defs.Debug
import PstackElf.Object.Construct

/-! What `getDebug()` returns over a run of calls. `debugLoaded` is set before
the search begins, so the search is made once, on the first call, whether it
returns or throws, and every later call returns what `debugObject` then holds
(`getDebugCalls_eq`). A search that returns leaves held what it returned; one
that throws leaves nothing held, but for the unchecked write at
`verbose >= 2` after a companion is found, which leaves that companion held
without the prelink shift. -/

namespace PstackElf

/-- No companion is held before the search has been made: so the constructor
leaves the members, and so each call keeps them. -/
def DebugState.Sound (st : DebugState) : Prop := st.debugLoaded = false → st.debugObject = none

/-- The calls of `getDebug()` in turn, each given what the steps of the search
that look outside the object would find if it were made at that call. -/
def getDebugCalls (B : Build) (context : DebugContext) (fuel : Nat) (o : Object) :
    List Discovery → DebugState → List (Except Fault (Option Object))
  | [], _ => []
  | disc :: discs, st =>
    (getDebug B context disc fuel o st).1 :: getDebugCalls B context fuel o discs (getDebug B context disc fuel o st).2

theorem DebugContext.write_error {context : DebugContext} {b : Bool} {e : Fault} (h : context.write b = .error e) :
    b = true ∧ context.debug = false := by
  unfold DebugContext.write at h
  split at h <;> simp_all

namespace Object

variable {B : Build} {context : DebugContext} {disc : Discovery} {fuel : Nat} {o : Object}

theorem steps_error_held {held : Option Object} {buildID : List Byte} {e : Fault}
    (h : (o.debuglinkStep B disc held >>= debuginfodStep context disc buildID) = .error e) : held = none := by
  cases held with
  | none => rfl
  | some c => simp [debuglinkStep, debuginfodStep] at h

/-- What the search can do: return a companion, or nothing, and leave it
held; or throw, leaving held what was held before it, or nothing, or, at the
unchecked write of `verbose >= 2` with no debug stream, the companion found. -/
theorem searchDebug_cases (held : Option Object) :
    (∃ c, o.searchDebug B context disc fuel held = (.ok c, c)) ∨
    ∃ e, (o.searchDebug B context disc fuel held).1 = .error e ∧
      ((o.searchDebug B context disc fuel held).2 = held ∨ (o.searchDebug B context disc fuel held).2 = none ∨
        (2 ≤ context.verbose ∧ context.debug = false)) := by
  unfold searchDebug
  cases disc.probe with
  | some c => exact .inl ⟨_, rfl⟩
  | none =>
    cases o.buildIdLookup fuel disc.getDebugImage with
    | error e => exact .inr ⟨e, rfl, .inl rfl⟩
    | ok r =>
      obtain ⟨byId, buildID⟩ := r
      dsimp only
      cases h : o.debuglinkStep B disc (if buildID.isEmpty then held else byId) >>=
          debuginfodStep context disc buildID with
      | error e => exact .inr ⟨e, rfl, .inr (.inl (steps_error_held h))⟩
      | ok r =>
        cases hw : context.write (decide (2 ≤ context.verbose)) with
        | error e =>
          cases r
          · exact .inr ⟨e, rfl, .inr (.inl rfl)⟩
          · exact .inr ⟨e, rfl, .inr (.inr (by simpa using DebugContext.write_error hw))⟩
        | ok u => cases r <;> exact .inl ⟨_, rfl⟩

end Object

section Latch

variable {B : Build} {context : DebugContext} {disc : Discovery} {fuel : Nat} {o : Object} {st : DebugState}

theorem getDebug_of_latched (h : st.debugLoaded = true ∨ context.noExtDebug = true) :
    getDebug B context disc fuel o st = (.ok st.debugObject, st) := by
  rw [getDebug, if_pos (by simpa [Bool.or_eq_true] using h)]

theorem getDebug_latches : (getDebug B context disc fuel o st).2.debugLoaded = true ∨ context.noExtDebug = true := by
  unfold getDebug
  split
  · next h => simpa [Bool.or_eq_true] using h
  · exact .inl rfl

theorem getDebug_held {c : Option Object} (h : (getDebug B context disc fuel o st).1 = .ok c) :
    (getDebug B context disc fuel o st).2.debugObject = c := by
  unfold getDebug at h ⊢
  split
  · next hl => rw [if_pos hl] at h; exact Except.ok.inj h
  · next hl =>
    rw [if_neg hl] at h
    rcases @Object.searchDebug_cases B context disc fuel o st.debugObject with ⟨c', hc⟩ | ⟨e, he, -⟩
    · rw [hc] at h ⊢
      exact Except.ok.inj h
    · rw [he] at h
      cases h

theorem getDebug_fault (hs : st.Sound) {e : Fault} (h : (getDebug B context disc fuel o st).1 = .error e) :
    (getDebug B context disc fuel o st).2.debugObject = none ∨ (2 ≤ context.verbose ∧ context.debug = false) := by
  unfold getDebug at h ⊢
  split
  · next hl => rw [if_pos hl] at h; cases h
  · next hl =>
    rw [if_neg hl] at h
    have h0 := hs (by simp at hl; exact hl.1)
    rcases @Object.searchDebug_cases B context disc fuel o st.debugObject with ⟨c', hc⟩ | ⟨e', -, h'⟩
    · rw [hc] at h
      cases h
    · exact h'.elim (fun h' => .inl (h'.trans h0)) id

theorem getDebugCalls_of_latched (discs : List Discovery) (h : st.debugLoaded = true ∨ context.noExtDebug = true) :
    getDebugCalls B context fuel o discs st = List.replicate discs.length (.ok st.debugObject) := by
  induction discs with
  | nil => rfl
  | cons disc discs ih =>
    rw [getDebugCalls, getDebug_of_latched h, ih]
    rfl

end Latch

/-- A file of four sections: the null section, the section-name table, a
`.dynamic` section at address `a`, and a `.gnu_debuglink` naming `c.debug`. -/
def dynamicAt (a : Addr) : Reader :=
  sectionImage [⟨0, SHT_NULL, 0, 0, 0, 0, 0⟩, ⟨1, 3, 0, 0, 320, 35, 0⟩, ⟨11, SHT_DYNAMIC, 0, a, 355, 0, 0⟩,
      ⟨20, SHT_PROGBITS, 0, 0, 355, 8, 0⟩] 1 ++
    [0] ++ lit ".shstrtab" ++ [0] ++ lit ".dynamic" ++ [0] ++ lit ".gnu_debuglink" ++ [0] ++ lit "c.debug" ++ [0]

set_option maxRecDepth 8000 in
/-- With `verbose >= 2` and no debug stream, the search finds the companion
and throws at the write that reports it; the second call returns that
companion. -/
example : (getDebugCalls noZlib ⟨false, false, 2⟩ 1 (Object.ofImage (dynamicAt 0))
    [⟨none, fun _ => none, fun _ => some (Object.ofImage []), .off⟩, ⟨none, fun _ => none, fun _ => none, .off⟩]
    ⟨false, none⟩).map Except.toBool = [false, true] := by
  decide

set_option maxRecDepth 8000 in
/-- An object whose `.dynamic` is at `0x1000` and a companion whose `.dynamic`
is at `0x2000`: the companion comes back shifted to `0x1000` only when a later
step than the first probe finds it and the context has a debug stream; without
the stream, or when the first probe finds it, it comes back at `0x2000`. -/
theorem getDebug_skips_prelink_shift :
    ((getDebug noZlib ⟨false, true, 0⟩ ⟨none, fun _ => none, fun _ => some (Object.ofImage (dynamicAt 0x2000)), .off⟩ 1
      (Object.ofImage (dynamicAt 0x1000)) ⟨false, none⟩).1.map (Option.map fun c => (c.sectionAt 2).shdr.sh_addr)) =
      .ok (some 0x1000) ∧
    ((getDebug noZlib ⟨false, false, 0⟩ ⟨none, fun _ => none, fun _ => some (Object.ofImage (dynamicAt 0x2000)), .off⟩ 1
      (Object.ofImage (dynamicAt 0x1000)) ⟨false, none⟩).1.map (Option.map fun c => (c.sectionAt 2).shdr.sh_addr)) =
      .ok (some 0x2000) ∧
    ((getDebug noZlib ⟨false, true, 0⟩ ⟨some (Object.ofImage (dynamicAt 0x2000)), fun _ => none, fun _ => none, .off⟩ 1
      (Object.ofImage (dynamicAt 0x1000)) ⟨false, none⟩).1.map (Option.map fun c => (c.sectionAt 2).shdr.sh_addr)) =
      .ok (some 0x2000) := by
  decide

end PstackElf
