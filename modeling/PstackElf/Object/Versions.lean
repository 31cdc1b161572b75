import PstackElf.Defs.Versions
import PstackElf.Object.Construct

/-! What `symbolVersions()` builds from sections laid out in the GNU
symbol-versioning format, and what `symbolVersion()` answers. A layout is
described by recursion on the records, each read where the offsets of the
chain put it (`NeedChain`, `DefChain`); each loop of the code is proved
against its chain (`readVerneeds_chain`, `readVerdefs_chain`), and each map
the loops fill is then the last record of its key (`foldl_update_getLast`). -/

namespace PstackElf

structure NeedAux where
  other : Half
  name : Name
  deriving DecidableEq

structure VersionNeed where
  file : Name
  auxes : List NeedAux
  deriving DecidableEq

structure VersionDef where
  ndx : Half
  names : List Name
  deriving DecidableEq

section Layout

variable (r strings : Reader)

def AuxChain : Off → List NeedAux → Prop
  | _, [] => True
  | off, a :: as =>
    match r.readVernaux off.toNat with
    | .ok aux => aux.vna_other = a.other ∧ strings.readString aux.vna_name.toNat = a.name ∧
        AuxChain (off + aux.vna_next.zeroExtend 64) as
    | .error _ => False

def NeedChain : Off → List VersionNeed → Prop
  | _, [] => True
  | off, n :: ns =>
    match r.readVerneed off.toNat with
    | .ok vn => strings.readString vn.vn_file.toNat = n.file ∧ vn.vn_cnt.toNat = n.auxes.length ∧
        AuxChain r strings (off + vn.vn_aux.zeroExtend 64) n.auxes ∧
        NeedChain (off + vn.vn_next.zeroExtend 64) ns
    | .error _ => False

def DauxChain : Off → List Name → Prop
  | _, [] => True
  | off, n :: ns =>
    match r.readVerdaux off.toNat with
    | .ok aux => strings.readString aux.vda_name.toNat = n ∧ DauxChain (off + aux.vda_next.zeroExtend 64) ns
    | .error _ => False

def DefChain : Off → List VersionDef → Prop
  | _, [] => True
  | off, d :: ds =>
    match r.readVerdef off.toNat with
    | .ok vd => vd.vd_ndx = d.ndx ∧ vd.vd_cnt.toNat = d.names.length ∧
        DauxChain r strings (off + vd.vd_aux.zeroExtend 64) (d.names.take 2) ∧
        DefChain (off + vd.vd_next.zeroExtend 64) ds
    | .error _ => False

instance AuxChain.decidable : ∀ off auxes, Decidable (AuxChain r strings off auxes)
  | _, [] => isTrue trivial
  | off, a :: as =>
    match h : r.readVernaux off.toNat with
    | .ok aux =>
      have := AuxChain.decidable (off + aux.vna_next.zeroExtend 64) as
      decidable_of_iff (aux.vna_other = a.other ∧ strings.readString aux.vna_name.toNat = a.name ∧
        AuxChain r strings (off + aux.vna_next.zeroExtend 64) as) (by rw [AuxChain, h])
    | .error _ => isFalse (by rw [AuxChain, h]; exact id)

instance NeedChain.decidable : ∀ off needs, Decidable (NeedChain r strings off needs)
  | _, [] => isTrue trivial
  | off, n :: ns =>
    match h : r.readVerneed off.toNat with
    | .ok vn =>
      have := NeedChain.decidable (off + vn.vn_next.zeroExtend 64) ns
      decidable_of_iff (strings.readString vn.vn_file.toNat = n.file ∧ vn.vn_cnt.toNat = n.auxes.length ∧
        AuxChain r strings (off + vn.vn_aux.zeroExtend 64) n.auxes ∧
        NeedChain r strings (off + vn.vn_next.zeroExtend 64) ns) (by rw [NeedChain, h])
    | .error _ => isFalse (by rw [NeedChain, h]; exact id)

instance DauxChain.decidable : ∀ off names, Decidable (DauxChain r strings off names)
  | _, [] => isTrue trivial
  | off, n :: ns =>
    match h : r.readVerdaux off.toNat with
    | .ok aux =>
      have := DauxChain.decidable (off + aux.vda_next.zeroExtend 64) ns
      decidable_of_iff (strings.readString aux.vda_name.toNat = n ∧
        DauxChain r strings (off + aux.vda_next.zeroExtend 64) ns) (by rw [DauxChain, h])
    | .error _ => isFalse (by rw [DauxChain, h]; exact id)

instance DefChain.decidable : ∀ off defs, Decidable (DefChain r strings off defs)
  | _, [] => isTrue trivial
  | off, d :: ds =>
    match h : r.readVerdef off.toNat with
    | .ok vd =>
      have := DefChain.decidable (off + vd.vd_next.zeroExtend 64) ds
      decidable_of_iff (vd.vd_ndx = d.ndx ∧ vd.vd_cnt.toNat = d.names.length ∧
        DauxChain r strings (off + vd.vd_aux.zeroExtend 64) (d.names.take 2) ∧
        DefChain r strings (off + vd.vd_next.zeroExtend 64) ds) (by rw [DefChain, h])
    | .error _ => isFalse (by rw [DefChain, h]; exact id)

end Layout

open SymbolVersioning

/-- The tables the records define, as the format means them: the version of
index `k` is the first name of the last `Verdef` of index `k` that has one,
else the name of the last `Vernaux` of index `k`; its predecessor is the
second name of the last `Verdef` of index `k` that has two; a file needs the
indices of the `Vernaux` entries of every `Verneed` naming it, in order. -/
def SymbolVersioning.ofRecords (needs : List VersionNeed) (defs : List VersionDef) : SymbolVersioning where
  versions k := ((defs.filter (·.ndx = k)).filterMap (·.names.head?)).getLast?.or
    (((needs.flatMap (·.auxes)).filter (·.other = k)).getLast?.map (·.name))
  predecessors k := ((defs.filter (·.ndx = k)).filterMap (·.names[1]?)).getLast?
  files f := if needs.any (·.file = f) then
      some ((needs.filter (·.file = f)).flatMap fun n => n.auxes.map (·.other))
    else none

namespace Object

variable (B : Build)

def versionViews (o : Object) (name : Name) (type : Word) (tag : Sxword) :
    Except Fault (Option (Reader × Reader × Nat)) :=
  let sec := o.sectionAt (o.getSection name type)
  if sec.present then do
    let strings ← o.linked sec
    match o.dynamic tag with
    | [] => .error .noSuchKey
    | num :: _ => do
      let (r, _) ← sec.io B o.io
      let (s, _) ← strings.io B o.io
      .ok (some (r, s, num.d_un.toNat))
  else .ok none

/-- The section holds the records `recs` as `Chain` lays them out: it is
absent and there are none; or it is present, its string table is in range,
both views are built, and the first `tag` entry of `.dynamic` counts the
records, laid out from offset 0. -/
def VersionsLaid {α : Type} (Chain : Reader → Reader → Off → List α → Prop) (o : Object) (name : Name)
    (type : Word) (tag : Sxword) (recs : List α) : Prop :=
  match o.versionViews B name type tag with
  | .ok none => recs = []
  | .ok (some (r, s, n)) => n = recs.length ∧ Chain r s 0 recs
  | .error _ => False

instance VersionsLaid.decidable {α : Type} [DecidableEq α] (Chain : Reader → Reader → Off → List α → Prop)
    [∀ r s off recs, Decidable (Chain r s off recs)] (o : Object) (name : Name) (type : Word) (tag : Sxword)
    (recs : List α) : Decidable (VersionsLaid B Chain o name type tag recs) :=
  match h : o.versionViews B name type tag with
  | .ok none => decidable_of_iff (recs = []) (by rw [VersionsLaid, h])
  | .ok (some (r, s, n)) => decidable_of_iff (n = recs.length ∧ Chain r s 0 recs) (by rw [VersionsLaid, h])
  | .error _ => isFalse (by rw [VersionsLaid, h]; exact id)

end Object

theorem foldl_update_getLast {α κ β : Type} [DecidableEq κ] (key : α → κ) (val : α → Option β)
    (l : List α) (m : κ → Option β) (k : κ) :
    l.foldl (fun m x => (val x).elim m fun v => Function.update m (key x) (some v)) m k =
      ((l.filter (key · = k)).filterMap val).getLast?.or (m k) := by
  induction l using List.reverseRecOn with
  | nil => simp
  | append_singleton l x ih =>
    rw [List.foldl_append, List.foldl_cons, List.foldl_nil, List.filter_append, List.filterMap_append,
      List.getLast?_append]
    by_cases hk : key x = k
    · subst hk
      cases hv : val x <;> simp [hv, ih]
    · cases hv : val x <;> simp [hk, hv, ih, Function.update_noteq (Ne.symm hk)]

theorem foldl_frame {σ α β : Type} (f : σ → β) {g : σ → α → σ} (h : ∀ s a, f (g s a) = f s)
    (l : List α) (s : σ) : f (l.foldl g s) = f s := by
  induction l generalizing s with
  | nil => rfl
  | cons a l ih => rw [List.foldl_cons, ih, h]

namespace SymbolVersioning

def addNeed (rv : SymbolVersioning) (n : VersionNeed) : SymbolVersioning :=
  n.auxes.foldl (fun rv a => rv.recordNeed n.file a.other a.name) (rv.openFile n.file)

def addDef (rv : SymbolVersioning) (d : VersionDef) : SymbolVersioning :=
  let rv := match d.names.head? with
    | some n => rv.recordDef d.ndx n
    | none => rv
  match d.names[1]? with
  | some n => rv.recordPredecessor d.ndx n
  | none => rv

theorem versions_addNeed (rv : SymbolVersioning) (n : VersionNeed) :
    (rv.addNeed n).versions = n.auxes.foldl (fun (m : Half → Option Name) (a : NeedAux) =>
      Function.update m a.other (some a.name)) rv.versions :=
  (List.foldl_hom versions _ _ n.auxes (rv.openFile n.file) fun _ _ => rfl).symm

theorem addDef_versions (rv : SymbolVersioning) (d : VersionDef) :
    (rv.addDef d).versions = d.names.head?.elim rv.versions fun n => Function.update rv.versions d.ndx (some n) := by
  unfold addDef
  cases d.names.head? <;> cases d.names[1]? <;> rfl

theorem addDef_predecessors (rv : SymbolVersioning) (d : VersionDef) :
    (rv.addDef d).predecessors =
      d.names[1]?.elim rv.predecessors fun n => Function.update rv.predecessors d.ndx (some n) := by
  unfold addDef
  cases d.names.head? <;> cases d.names[1]? <;> rfl

theorem addDef_files (rv : SymbolVersioning) (d : VersionDef) : (rv.addDef d).files = rv.files := by
  unfold addDef
  cases d.names.head? <;> cases d.names[1]? <;> rfl

theorem versions_foldl_addNeed (needs : List VersionNeed) (rv : SymbolVersioning) (k : Half) :
    (needs.foldl addNeed rv).versions k =
      (((needs.flatMap (·.auxes)).filter (·.other = k)).getLast?.map (·.name)).or (rv.versions k) := by
  have hflat : (needs.foldl addNeed rv).versions = (needs.flatMap (·.auxes)).foldl
      (fun (m : Half → Option Name) (a : NeedAux) => Function.update m a.other (some a.name)) rv.versions := by
    induction needs generalizing rv with
    | nil => rfl
    | cons n ns ih => rw [List.foldl_cons, ih, List.flatMap_cons, List.foldl_append, versions_addNeed]
  rw [hflat, ← List.getLast?_map, ← List.filterMap_eq_map]
  exact foldl_update_getLast (fun a : NeedAux => a.other) (some ∘ fun a : NeedAux => a.name) _ _ k

theorem versions_foldl_addDef (defs : List VersionDef) (rv : SymbolVersioning) (k : Half) :
    (defs.foldl addDef rv).versions k =
      ((defs.filter (·.ndx = k)).filterMap (·.names.head?)).getLast?.or (rv.versions k) := by
  rw [← List.foldl_hom versions addDef (fun m (d : VersionDef) => d.names.head?.elim m fun n =>
    Function.update m d.ndx (some n)) defs rv fun rv d => (addDef_versions rv d).symm]
  exact foldl_update_getLast _ _ _ _ k

theorem predecessors_foldl_addDef (defs : List VersionDef) (rv : SymbolVersioning) (k : Half) :
    (defs.foldl addDef rv).predecessors k =
      ((defs.filter (·.ndx = k)).filterMap (·.names[1]?)).getLast?.or (rv.predecessors k) := by
  rw [← List.foldl_hom predecessors addDef (fun m (d : VersionDef) => d.names[1]?.elim m fun n =>
    Function.update m d.ndx (some n)) defs rv fun rv d => (addDef_predecessors rv d).symm]
  exact foldl_update_getLast _ _ _ _ k

theorem predecessors_foldl_addNeed (needs : List VersionNeed) (rv : SymbolVersioning) :
    (needs.foldl addNeed rv).predecessors = rv.predecessors :=
  @foldl_frame _ _ _ predecessors addNeed (fun s n => @foldl_frame _ _ _ predecessors
    (fun rv (a : NeedAux) => rv.recordNeed n.file a.other a.name) (fun _ _ => rfl) n.auxes (s.openFile n.file))
    needs rv

theorem files_foldl_addDef (defs : List VersionDef) (rv : SymbolVersioning) :
    (defs.foldl addDef rv).files = rv.files :=
  foldl_frame files addDef_files defs rv

theorem files_foldl_recordNeed (file : Name) (auxes : List NeedAux) {rv : SymbolVersioning} {l : List Half}
    (h : rv.files file = some l) :
    (auxes.foldl (fun rv a => rv.recordNeed file a.other a.name) rv).files =
      Function.update rv.files file (some (l ++ auxes.map (·.other))) := by
  induction auxes generalizing rv l with
  | nil => simp [← h]
  | cons a as ih =>
    rw [List.foldl_cons, @ih _ (l ++ [a.other]) (by simp [recordNeed, h])]
    simp [recordNeed, h]

theorem files_addNeed (rv : SymbolVersioning) (n : VersionNeed) :
    (rv.addNeed n).files =
      Function.update rv.files n.file (some ((rv.files n.file).getD [] ++ n.auxes.map (·.other))) := by
  rw [addNeed, @files_foldl_recordNeed n.file n.auxes (rv.openFile n.file) ((rv.files n.file).getD [])
    (by simp [openFile])]
  simp [openFile]

theorem files_foldl_addNeed (needs : List VersionNeed) (rv : SymbolVersioning) (f : Name) :
    (needs.foldl addNeed rv).files f = if needs.any (·.file = f) then
      some ((rv.files f).getD [] ++ (needs.filter (·.file = f)).flatMap fun n => n.auxes.map (·.other))
    else rv.files f := by
  induction needs generalizing rv with
  | nil => simp
  | cons n ns ih =>
    rw [List.foldl_cons, ih, files_addNeed]
    by_cases hf : n.file = f
    · subst hf
      by_cases ha : ns.any (·.file = n.file)
      · simp [ha]
      · have hnil : ns.filter (·.file = n.file) = [] := List.filter_eq_nil_iff.mpr (by simpa using ha)
        simp [ha, hnil]
    · simp [hf, Function.update_noteq (Ne.symm hf)]

theorem foldl_addDef_addNeed (needs : List VersionNeed) (defs : List VersionDef) :
    defs.foldl addDef (needs.foldl addNeed empty) = ofRecords needs defs := by
  ext1 <;> funext k
  · rw [versions_foldl_addDef, versions_foldl_addNeed, show empty.versions k = none from rfl, Option.or_none]
    rfl
  · rw [predecessors_foldl_addDef, predecessors_foldl_addNeed, show empty.predecessors k = none from rfl,
      Option.or_none]
    rfl
  · rw [files_foldl_addDef, files_foldl_addNeed]
    rfl

end SymbolVersioning

section Loops

variable {r strings : Reader}

theorem readVernauxs_chain {off : Off} {auxes : List NeedAux} (h : AuxChain r strings off auxes)
    (file : Name) (rv : SymbolVersioning) :
    readVernauxs (.ok r) (.ok strings) file auxes.length off rv =
      .ok (auxes.foldl (fun rv a => rv.recordNeed file a.other a.name) rv) := by
  induction auxes generalizing off rv with
  | nil => rfl
  | cons a as ih =>
    rw [AuxChain] at h
    split at h
    · next aux haux =>
      obtain ⟨hother, hname, hrest⟩ := h
      simp only [List.length_cons, readVernauxs, Except.ok_bind, haux, hother, hname, List.foldl_cons]
      exact ih hrest _
    · exact h.elim

theorem readVerneeds_chain {off : Off} {needs : List VersionNeed} (h : NeedChain r strings off needs)
    (rv : SymbolVersioning) :
    readVerneeds (.ok r) (.ok strings) needs.length off rv = .ok (needs.foldl addNeed rv) := by
  induction needs generalizing off rv with
  | nil => rfl
  | cons n ns ih =>
    rw [NeedChain] at h
    split at h
    · next vn hvn =>
      obtain ⟨hfile, hcnt, hauxes, hrest⟩ := h
      simp only [List.length_cons, readVerneeds, Except.ok_bind, hvn, hfile, hcnt,
        readVernauxs_chain hauxes, List.foldl_cons]
      exact ih hrest _
    · exact h.elim

theorem readVerdauxName_chain {off : Off} {n : Name} {ns : List Name} (h : DauxChain r strings off (n :: ns)) :
    ∃ next, readVerdauxName (.ok r) (.ok strings) off = .ok (n, next) ∧ DauxChain r strings next ns := by
  rw [DauxChain] at h
  split at h
  · next aux haux => exact ⟨_, by simp only [readVerdauxName, Except.ok_bind, haux, h.1], h.2⟩
  · exact h.elim

theorem readVerdefAuxes_chain {vd : Verdef} {auxOff : Off} {d : VersionDef} (hndx : vd.vd_ndx = d.ndx)
    (hcnt : vd.vd_cnt.toNat = d.names.length) (h : DauxChain r strings auxOff (d.names.take 2))
    (rv : SymbolVersioning) :
    readVerdefAuxes (.ok r) (.ok strings) vd auxOff rv = .ok (rv.addDef d) := by
  obtain ⟨ndx, names⟩ := d
  dsimp only at hndx hcnt h
  subst hndx
  match names, h with
  | [], _ =>
    simp [readVerdefAuxes, BitVec.le_def, hcnt, addDef]
    rfl
  | [n0], h =>
    obtain ⟨next, hn, -⟩ := readVerdauxName_chain h
    simp [readVerdefAuxes, BitVec.le_def, hcnt, hn, addDef]
  | n0 :: n1 :: rest, h =>
    obtain ⟨next, hn0, h⟩ := readVerdauxName_chain h
    obtain ⟨_, hn1, -⟩ := readVerdauxName_chain h
    simp [readVerdefAuxes, BitVec.le_def, hcnt, hn0, hn1, addDef]

theorem readVerdefs_chain {off : Off} {defs : List VersionDef} (h : DefChain r strings off defs)
    (rv : SymbolVersioning) :
    readVerdefs (.ok r) (.ok strings) defs.length off rv = .ok (defs.foldl addDef rv) := by
  induction defs generalizing off rv with
  | nil => rfl
  | cons d ds ih =>
    rw [DefChain] at h
    split at h
    · next vd hvd =>
      obtain ⟨hndx, hcnt, hdaux, hrest⟩ := h
      simp only [List.length_cons, readVerdefs, Except.ok_bind, hvd, readVerdefAuxes_chain hndx hcnt hdaux,
        List.foldl_cons]
      exact ih hrest _
    · exact h.elim

end Loops

namespace Object

variable (B : Build)

theorem versionSection_of_views {o : Object} {name : Name} {type : Word} {tag : Sxword}
    {walk : Except Fault Reader → Except Fault Reader → Nat → Off → SymbolVersioning → Except Fault SymbolVersioning}
    {v : Option (Reader × Reader × Nat)} (h : o.versionViews B name type tag = .ok v) (rv : SymbolVersioning) :
    o.versionSection B name type tag walk rv = v.elim (.ok rv) fun p => walk (.ok p.1) (.ok p.2.1) p.2.2 0 rv := by
  unfold versionViews at h
  unfold versionSection
  dsimp only at h ⊢
  split
  · next hp =>
    rw [if_pos hp] at h
    rw [getLinkedSection, if_neg (by simp [hp]), if_pos rfl]
    obtain ⟨strings, hl, h⟩ := Except.bind_eq_ok.mp h
    rw [hl, Except.ok_bind]
    cases hd : o.dynamic tag with
    | nil => rw [hd] at h; cases h
    | cons num nums =>
      rw [hd] at h
      obtain ⟨⟨r, _⟩, hr, h⟩ := Except.bind_eq_ok.mp h
      obtain ⟨⟨s, _⟩, hs, h⟩ := Except.bind_eq_ok.mp h
      cases h
      simp only [hr, hs, Except.map_ok]
      rfl
  · next hp =>
    rw [if_neg hp] at h
    cases h
    rfl

theorem versionSection_laid {α : Type} {Chain : Reader → Reader → Off → List α → Prop}
    {step : SymbolVersioning → α → SymbolVersioning}
    {walk : Except Fault Reader → Except Fault Reader → Nat → Off → SymbolVersioning → Except Fault SymbolVersioning}
    (hwalk : ∀ r s recs rv, Chain r s 0 recs → walk (.ok r) (.ok s) recs.length 0 rv = .ok (recs.foldl step rv))
    {o : Object} {name : Name} {type : Word} {tag : Sxword} {recs : List α}
    (h : VersionsLaid B Chain o name type tag recs) (rv : SymbolVersioning) :
    o.versionSection B name type tag walk rv = .ok (recs.foldl step rv) := by
  rw [VersionsLaid] at h
  split at h
  · next hv => rw [versionSection_of_views B hv, h]; rfl
  · next r s n hv => rw [versionSection_of_views B hv, h.1]; exact hwalk _ _ _ _ h.2
  · exact h.elim

theorem buildSymbolVersions_laid {o : Object} {needs : List VersionNeed} {defs : List VersionDef}
    (hr : o.VersionsLaid B NeedChain (lit ".gnu.version_r") SHT_GNU_verneed DT_VERNEEDNUM needs)
    (hd : o.VersionsLaid B DefChain (lit ".gnu.version_d") SHT_GNU_verdef DT_VERDEFNUM defs) :
    o.buildSymbolVersions B = .ok (ofRecords needs defs) := by
  rw [buildSymbolVersions, versionSection_laid B (fun _ _ _ rv h => readVerneeds_chain h rv) hr,
    Except.ok_bind, versionSection_laid B (fun _ _ _ rv h => readVerdefs_chain h rv) hd, foldl_addDef_addNeed]

/-- For an object whose `.gnu.version_r` and `.gnu.version_d` are laid out in
the GNU format, or absent: `symbolVersions()` holds the tables the records
define, whether it builds them now or held them from an earlier call; and
`symbolVersion(v)` has no name when `v & 0x7fff < 2`, names `versions[v & 0x7fff]`
when a record defines that index, and throws when none does. -/
theorem symbolVersions_laid (o : Object) (needs : List VersionNeed) (defs : List VersionDef)
    (hr : o.VersionsLaid B NeedChain (lit ".gnu.version_r") SHT_GNU_verneed DT_VERNEEDNUM needs)
    (hd : o.VersionsLaid B DefChain (lit ".gnu.version_d") SHT_GNU_verdef DT_VERDEFNUM defs)
    (held : Option SymbolVersioning) (hheld : held = none ∨ held = some (ofRecords needs defs)) (v : Half) :
    o.symbolVersions B held = .ok (ofRecords needs defs) ∧
    (v &&& 0x7fff < 2 → o.symbolVersion B held v = (.ok none, some (ofRecords needs defs))) ∧
    (∀ name, 2 ≤ v &&& 0x7fff → (ofRecords needs defs).versions (v &&& 0x7fff) = some name →
      o.symbolVersion B held v = (.ok (some name), some (ofRecords needs defs))) ∧
    (2 ≤ v &&& 0x7fff → (ofRecords needs defs).versions (v &&& 0x7fff) = none →
      o.symbolVersion B held v = (.error .noSuchKey, some (ofRecords needs defs))) := by
  have hb : o.symbolVersions B held = .ok (ofRecords needs defs) := by
    rcases hheld with rfl | rfl
    · exact buildSymbolVersions_laid B hr hd
    · rfl
  refine ⟨hb, fun hlt => ?_, fun name hge hv => ?_, fun hge hv => ?_⟩ <;> rw [symbolVersion, hb] <;> dsimp only
  · rw [if_neg (BitVec.not_le.mpr hlt)]
  · rw [if_pos hge, hv]
  · rw [if_pos hge, hv]

end Object

def Verneed.encode (v : Verneed) : List Byte :=
  List.replicate 2 0 ++ encodeLE 2 v.vn_cnt.toNat ++ encodeLE 4 v.vn_file.toNat ++ encodeLE 4 v.vn_aux.toNat ++
    encodeLE 4 v.vn_next.toNat

def Vernaux.encode (v : Vernaux) : List Byte :=
  List.replicate 6 0 ++ encodeLE 2 v.vna_other.toNat ++ encodeLE 4 v.vna_name.toNat ++ encodeLE 4 v.vna_next.toNat

def Verdef.encode (v : Verdef) : List Byte :=
  List.replicate 4 0 ++ encodeLE 2 v.vd_ndx.toNat ++ encodeLE 2 v.vd_cnt.toNat ++ List.replicate 4 0 ++
    encodeLE 4 v.vd_aux.toNat ++ encodeLE 4 v.vd_next.toNat

def Verdaux.encode (v : Verdaux) : List Byte := encodeLE 4 v.vda_name.toNat ++ encodeLE 4 v.vda_next.toNat

/-- A file of six sections: the null section, the section-name table,
`.dynstr`, a `.dynamic` with `DT_VERNEEDNUM = 1` and `DT_VERDEFNUM = 2`, a
`.gnu.version_r` in which `libc.so.6` gives index 3 to `GLIBC_2.2.5`, and a
`.gnu.version_d` defining index 1 (`libfoo.so`) and index 2 (`FOO_1`, whose
predecessor is `FOO_0`). -/
def versionImage : Reader :=
  sectionImage [⟨0, SHT_NULL, 0, 0, 0, 0, 0⟩, ⟨1, 3, 0, 0, 448, 58, 0⟩, ⟨11, 3, 0, 0, 506, 45, 0⟩,
    ⟨19, SHT_DYNAMIC, 0, 0, 551, 32, 2⟩, ⟨28, SHT_GNU_verneed, 0, 0, 583, 32, 2⟩,
    ⟨43, SHT_GNU_verdef, 0, 0, 615, 64, 2⟩] 1 ++
  [0] ++ lit ".shstrtab" ++ [0] ++ lit ".dynstr" ++ [0] ++ lit ".dynamic" ++ [0] ++ lit ".gnu.version_r" ++ [0] ++
    lit ".gnu.version_d" ++ [0] ++
  [0] ++ lit "libc.so.6" ++ [0] ++ lit "GLIBC_2.2.5" ++ [0] ++ lit "libfoo.so" ++ [0] ++ lit "FOO_1" ++ [0] ++
    lit "FOO_0" ++ [0] ++
  encodeLE 8 0x6fffffff ++ encodeLE 8 1 ++ encodeLE 8 0x6ffffffd ++ encodeLE 8 2 ++
  Verneed.encode ⟨1, 1, 16, 0⟩ ++ Vernaux.encode ⟨3, 11, 0⟩ ++
  Verdef.encode ⟨1, 1, 20, 28⟩ ++ Verdaux.encode ⟨23, 0⟩ ++
  Verdef.encode ⟨2, 2, 20, 0⟩ ++ Verdaux.encode ⟨33, 8⟩ ++ Verdaux.encode ⟨39, 0⟩

def imageNeeds : List VersionNeed := [⟨lit "libc.so.6", [⟨3, lit "GLIBC_2.2.5"⟩]⟩]

def imageDefs : List VersionDef := [⟨1, [lit "libfoo.so"]⟩, ⟨2, [lit "FOO_1", lit "FOO_0"]⟩]

set_option maxRecDepth 8000 in
theorem symbolVersions_laid_on_image :
    let o := Object.ofImage versionImage
    o.VersionsLaid noZlib NeedChain (lit ".gnu.version_r") SHT_GNU_verneed DT_VERNEEDNUM imageNeeds ∧
    o.VersionsLaid noZlib DefChain (lit ".gnu.version_d") SHT_GNU_verdef DT_VERDEFNUM imageDefs ∧
    ((none : Option SymbolVersioning) = none ∨ none = some (ofRecords imageNeeds imageDefs)) ∧
    (o.symbolVersions noZlib none = .ok (ofRecords imageNeeds imageDefs) ∧
    ((0x8002 : Half) &&& 0x7fff < 2 →
      o.symbolVersion noZlib none 0x8002 = (.ok none, some (ofRecords imageNeeds imageDefs))) ∧
    (∀ name, 2 ≤ (0x8002 : Half) &&& 0x7fff → (ofRecords imageNeeds imageDefs).versions (0x8002 &&& 0x7fff) = some name →
      o.symbolVersion noZlib none 0x8002 = (.ok (some name), some (ofRecords imageNeeds imageDefs))) ∧
    (2 ≤ (0x8002 : Half) &&& 0x7fff → (ofRecords imageNeeds imageDefs).versions (0x8002 &&& 0x7fff) = none →
      o.symbolVersion noZlib none 0x8002 = (.error .noSuchKey, some (ofRecords imageNeeds imageDefs)))) := by
  refine ⟨?hr, ?hd, Or.inl rfl, Object.symbolVersions_laid noZlib _ _ _ ?hr ?hd none (Or.inl rfl) 0x8002⟩ <;> decide

set_option maxRecDepth 8000 in
/-- On `versionImage` no record defines index 4, and `symbolVersion(4)` throws
`std::out_of_range` from `versions.at(4)` instead of answering that there is
no name. -/
theorem symbolVersion_throws_on_undefined :
    (ofRecords imageNeeds imageDefs).versions 4 = none ∧
    ((Object.ofImage versionImage).symbolVersion noZlib none 4).1 = .error .noSuchKey := by
  decide

end PstackElf
