import FrpProvisioner.Controller.Claiming
import FrpProvisioner.Effect.Interleaving
import FrpProvisioner.Effect.Tenure
import FrpProvisioner.Effect.Versions

/-! Managers of different owners that claim objects of one store at the same time. Each of
them works on copies of any age and reads its owner with any answer; the store accepts an
update only with the stored resource version and keeps a log of what it accepted. -/
namespace FrpProvisioner
open Effect
variable {π ω β : Type}

/-- An accepted update: who sent it, and the stored object before and after. -/
structure Write (π β : Type) where
  writer : π
  before : Object β
  after : Object β

/-- The stored objects, everything that was ever stored, and the accepted updates in order. -/
structure Ledger (π β : Type) where
  objects : Table (Object.key : Object β → NamespacedName)
  revision : ℕ
  past : List (Object β)
  writes : List (Write π β)

namespace Ledger

def ofObjects (objects : Table (Object.key : Object β → NamespacedName)) (revision : ℕ) :
    Ledger π β :=
  ⟨objects, revision, objects.entries, []⟩

/-- The store sets the version of what it is sent. -/
def stored (s : Ledger π β) (w : Object β) : Object β :=
  { w with resourceVersion := s.revision + 1 }

def put (s : Ledger π β) (w : Object β) : Ledger π β :=
  let objects := s.objects.replace (s.stored w)
  ⟨objects, s.revision + 1, objects.entries ++ s.past, s.writes⟩

def write (s : Ledger π β) (p : π) (cur w : Object β) : Ledger π β :=
  { s.put w with writes := s.writes ++ [⟨p, cur, s.stored w⟩] }

/-- An update needs the stored version. It may fail for any reason, and the answer to an
accepted one may get lost. Everything else a manager sends is a read. -/
def serve (p : π) : Server (Request ω β) Response (Ledger π β)
  | s, .update w, o, s' =>
      (s' = s ∧ ∃ err, o = .error err) ∨
      ∃ cur, s.objects.find? w.key = some cur ∧ cur.resourceVersion = w.resourceVersion ∧
        s' = s.write p cur w ∧ (o = .ok (s.stored w) ∨ ∃ err, o = .error err)
  | s, _, _, s' => s' = s

end Ledger

/-- Manager `p` may claim any copies with any filters, again and again; other clients change
objects but not their owner references. -/
def racingSystem (mgrs : π → RefManager ω) :
    System π (Request ω β) Response (Ledger π β) (List (Object β) × Option GoError) where
  start p s prog := ∃ objs filters, (∀ x ∈ objs, x ∈ s.past) ∧
    prog = (mgrs p).claimOwnedObjects objs filters
  serve := Ledger.serve
  env s s' := ∃ cur ∈ s.objects, ∃ w : Object β, w.key = cur.key ∧
    w.ownerReferences = cur.ownerReferences ∧ s' = s.put w

variable (mgrs : π → RefManager ω)

def Write.IsAdoption (e : Write π β) : Prop :=
  getControllerOf e.before = none ∧ ControlledBy (mgrs e.writer).owner.uid e.after

def Write.IsRelease (e : Write π β) : Prop :=
  ControlledBy (mgrs e.writer).owner.uid e.before ∧
    ¬ ControlledBy (mgrs e.writer).owner.uid e.after

/-- The write `r` is a release by the writer of `a`, of the object `a` wrote. -/
def Write.Ends (a r : Write π β) : Prop :=
  r.after.key = a.after.key ∧ r.writer = a.writer ∧ r.IsRelease mgrs

/-- The object that `a` wrote is still controlled by the owner of its writer. -/
def Write.Holds (s : Ledger π β) (a : Write π β) : Prop :=
  ∃ x ∈ s.objects, x.key = a.after.key ∧ ControlledBy (mgrs a.writer).owner.uid x

structure RacingInv (s : Ledger π β) : Prop where
  recorded : Recorded (fun x : Object β => x.resourceVersion) s.objects s.past s.revision
  one : ∀ x ∈ s.objects, AtMostOneController x
  tenure : Tenure (Write.IsAdoption mgrs) (fun a b => a.after.key = b.after.key)
    (Write.Ends mgrs) (Write.Holds mgrs s) s.writes

/-- A manager updates only copies it was given, to adopt or to release them. -/
def racingGuarantee (p : π) : Server (Request ω β) Response (Ledger π β)
  | s, .update w, _, _ => ∃ isMatch, ∃ x ∈ s.past,
      (mgrs p).Adopts isMatch x w ∨ (mgrs p).Releases isMatch x w
  | _, _, _, _ => True

section
variable {mgrs} {s s' : Ledger π β} {cur w : Object β}

theorem Ledger.mem_put {x : Object β} (hcur : cur ∈ s.objects) (hk : w.key = cur.key) :
    x ∈ (s.put w).objects ↔ x = s.stored w ∨ (x ∈ s.objects ∧ x.key ≠ cur.key) := by
  have hstored : (s.stored w).key = cur.key := hk
  show x ∈ s.objects.replace (s.stored w) ↔ _
  rw [Table.mem_replace, hstored]
  constructor
  · rintro (⟨rfl, -⟩ | hx)
    · exact Or.inl rfl
    · exact Or.inr hx
  · rintro (rfl | hx)
    · exact Or.inl ⟨rfl, cur, hcur, rfl⟩
    · exact Or.inr hx

theorem Ledger.recorded_put (hcur : cur ∈ s.objects) (hk : w.key = cur.key)
    (h : Recorded (fun x : Object β => x.resourceVersion) s.objects s.past s.revision) :
    Recorded (fun x : Object β => x.resourceVersion) (s.put w).objects (s.put w).past
      (s.put w).revision := by
  refine h.advance fun x hx => ?_
  rcases (mem_put hcur hk).mp hx with rfl | ⟨hx, -⟩
  · exact Or.inr rfl
  · exact Or.inl hx

/-- The copy behind an accepted update is the stored object. -/
theorem RacingInv.stored_copy {p : π} {o : Response (.update w : Request ω β)}
    (h : RacingInv mgrs s) (hG : racingGuarantee mgrs p s (.update w) o s')
    (hcur : s.objects.find? w.key = some cur) (hv : cur.resourceVersion = w.resourceVersion) :
    cur ∈ s.objects ∧ ∃ isMatch,
      (mgrs p).Adopts isMatch cur w ∨ (mgrs p).Releases isMatch cur w := by
  obtain ⟨hmem, hkey⟩ := Table.find?_eq_some.mp hcur
  obtain ⟨isMatch, x, hx, hw⟩ := hG
  have hxw : w.key = x.key ∧ w.resourceVersion = x.resourceVersion := by
    rcases hw with hw | hw
    · exact ⟨hw.key_eq, hw.version_eq⟩
    · exact ⟨hw.key_eq, hw.version_eq⟩
  obtain rfl : x = cur :=
    h.recorded.eq_stored hx hmem (hxw.1.symm.trans hkey.symm) (hxw.2.symm.trans hv.symm)
  exact ⟨hmem, isMatch, hw⟩

theorem RacingInv.write {p : π} {isMatch : Object β → Bool}
    (huid : Function.Injective fun p => (mgrs p).owner.uid) (h : RacingInv mgrs s)
    (hcur : cur ∈ s.objects)
    (hw : (mgrs p).Adopts isMatch cur w ∨ (mgrs p).Releases isMatch cur w) :
    RacingInv mgrs (s.write p cur w) := by
  have hk : w.key = cur.key := by
    rcases hw with hw | hw
    · exact hw.key_eq
    · exact hw.key_eq
  have hstored : s.stored w ∈ (s.put w).objects := (Ledger.mem_put hcur hk).mpr (Or.inl rfl)
  refine ⟨Ledger.recorded_put hcur hk h.recorded, fun x hx => ?_, h.tenure.snoc ?_ ?_ ?_⟩
  · rcases (Ledger.mem_put hcur hk).mp hx with rfl | ⟨hx, -⟩
    · rcases hw with hw | hw
      · exact hw.atMostOne
      · exact hw.atMostOne (h.one cur hcur)
    · exact h.one x hx
  · -- a controlled object stays controlled unless its manager releases it here
    rintro a - ⟨x, hx, hxk, hxc⟩ hends
    by_cases hkey : x.key = cur.key
    · obtain rfl := Table.eq_of_key hx hcur hkey
      rcases hw with hw | hw
      · simp [ControlledBy, hw.orphan] at hxc
      · have hwriter : p = a.writer :=
          huid (Option.some.inj (hw.controlled.symm.trans hxc))
        by_cases hc : ControlledBy (mgrs a.writer).owner.uid (s.stored w)
        · exact ⟨_, hstored, hk.trans hxk, hc⟩
        · exact absurd ⟨hk.trans hxk, hwriter, hw.controlled, hwriter ▸ hc⟩ hends
    · exact ⟨x, (Ledger.mem_put hcur hk).mpr (Or.inr ⟨hx, hkey⟩), hxk, hxc⟩
  · exact fun he => ⟨_, hstored, rfl, he.2⟩
  · rintro a - he hka ⟨x, hx, hxk, hxc⟩
    obtain rfl : x = cur := Table.eq_of_key hx hcur ((hxk.trans hka).trans hk)
    have horphan : getControllerOf x = none := he.1
    simp [ControlledBy, horphan] at hxc

theorem RacingInv.next {p : π} {i : Request ω β} {o : Response i}
    (huid : Function.Injective fun p => (mgrs p).owner.uid) (h : RacingInv mgrs s)
    (ho : Ledger.serve p s i o s') (hG : racingGuarantee mgrs p s i o s') :
    RacingInv mgrs s' := by
  cases i with
  | update w =>
    rcases ho with ⟨rfl, -⟩ | ⟨cur, hcur, hv, rfl, -⟩
    · exact h
    · obtain ⟨hmem, isMatch, hw⟩ := h.stored_copy hG hcur hv
      exact h.write huid hmem hw
  | _ => exact ho ▸ h

theorem RacingInv.env (h : RacingInv mgrs s)
    (hs : (racingSystem mgrs : System π (Request ω β) Response _ _).env s s') :
    RacingInv mgrs s' := by
  obtain ⟨cur, hcur, w, hk, hrefs, rfl⟩ := hs
  refine ⟨Ledger.recorded_put hcur hk h.recorded, fun x hx => ?_, h.tenure.mono ?_⟩
  · rcases (Ledger.mem_put hcur hk).mp hx with rfl | ⟨hx, -⟩
    · show w.ownerReferences.countP _ ≤ 1
      rw [hrefs]
      exact h.one cur hcur
    · exact h.one x hx
  · rintro a ⟨x, hx, hxk, hxc⟩
    by_cases hkey : x.key = cur.key
    · obtain rfl := Table.eq_of_key hx hcur hkey
      refine ⟨_, (Ledger.mem_put hcur hk).mpr (Or.inl rfl), hk.trans hxk, ?_⟩
      show (w.ownerReferences.find? _).map _ = _
      rw [hrefs]
      exact hxc
    · exact ⟨x, (Ledger.mem_put hcur hk).mpr (Or.inr ⟨hx, hkey⟩), hxk, hxc⟩

end

section
variable {mgrs} {s s' : Ledger π β} {p : π}

abbrev racingRely (mgrs : π → RefManager ω) (p : π) : Ledger π β → Ledger π β → Prop :=
  Relation.ReflTransGen
    ((racingSystem mgrs).Rely (RacingInv mgrs) (racingGuarantee mgrs) p)

abbrev racingServe (mgrs : π → RefManager ω) (p : π) :
    Server (Request ω β) Response (Ledger π β) :=
  (racingSystem mgrs).serveIn (RacingInv mgrs) p

theorem past_put {x w : Object β} (h : x ∈ s.past) : x ∈ (s.put w).past :=
  List.mem_append_right _ h

theorem past_serve {i : Request ω β} {o : Response i} {x : Object β}
    (ho : Ledger.serve p s i o s') (h : x ∈ s.past) : x ∈ s'.past := by
  cases i with
  | update w =>
    rcases ho with ⟨rfl, -⟩ | ⟨cur, -, -, rfl, -⟩
    · exact h
    · exact past_put h
  | _ => exact ho ▸ h

theorem past_answer {i : Request ω β} {o : Response i} {x : Object β}
    (ho : racingServe mgrs p s i o s') (h : x ∈ s.past) : x ∈ s'.past := by
  have hserve : Ledger.serve p s i o s' := ho.2
  exact past_serve hserve h

theorem past_rely_step {x : Object β}
    (hs : (racingSystem mgrs).Rely (RacingInv mgrs) (racingGuarantee mgrs) p s s')
    (h : x ∈ s.past) : x ∈ s'.past := by
  obtain ⟨-, ⟨cur, -, w, -, -, rfl⟩ | ⟨q, -, i, o, hserve, -⟩⟩ := hs
  · exact past_put h
  · exact past_serve hserve h

theorem past_rely {x : Object β} (hs : racingRely mgrs p s s') (h : x ∈ s.past) :
    x ∈ s'.past := by
  induction hs with
  | refl => exact h
  | tail _ hstep ih => exact past_rely_step hstep ih

def Collected (mgrs : π → RefManager ω) (p : π) (objs claimed : List (Object β))
    (s : Ledger π β) : Prop :=
  (∀ x ∈ objs, x ∈ s.past) ∧
    ∀ x ∈ claimed, x ∈ s.past ∧ ControlledBy (mgrs p).owner.uid x

theorem Collected.mono {objs claimed : List (Object β)} (h : Collected mgrs p objs claimed s)
    (hs : ∀ x ∈ s.past, x ∈ s'.past) : Collected mgrs p objs claimed s' :=
  ⟨fun x hx => hs x (h.1 x hx), fun x hx => ⟨hs x (h.2 x hx).1, (h.2 x hx).2⟩⟩

theorem Collected.snoc {objs claimed : List (Object β)} {y : Object β}
    (h : Collected mgrs p objs claimed s) (hy : y ∈ s.past)
    (hc : ControlledBy (mgrs p).owner.uid y) : Collected mgrs p objs (claimed ++ [y]) s := by
  refine ⟨h.1, fun x hx => ?_⟩
  rcases List.mem_append.mp hx with hx | hx
  · exact h.2 x hx
  · rw [List.mem_singleton.mp hx]
    exact ⟨hy, hc⟩

private theorem claimSpec_racing {objs : List (Object β)} {filters : List (Object β → Bool)}
    {st : RefManager.ClaimState β} {x : Object β} (hx : x ∈ objs) :
    (mgrs p).ClaimSpec ((mgrs p).matching filters) (racingRely mgrs p) (racingServe mgrs p)
      (racingGuarantee mgrs p) st.once x (Collected mgrs p objs st.claimObjs)
      (fun _ => Collected mgrs p objs st.claimObjs)
      fun c s => Collected mgrs p objs (st.add c).claimObjs s := by
  refine RefManager.ClaimSpec.of_collected
    (fun _ _ h hs => h.mono fun _ => past_rely hs) ?_ ?_ (fun _ _ h => h) ?_ ?_
  · intro s h o s' ho
    exact ⟨trivial, h.mono fun _ => past_answer ho⟩
  · exact fun hc _ s h => h.snoc (h.1 x hx) hc
  · intro w hw s h o s' ho
    have hkept := h.mono fun _ => past_answer ho
    refine ⟨⟨_, x, h.1 x hx, Or.inl hw⟩, ?_, fun _ _ => hkept⟩
    rintro stored rfl
    rcases ho.2 with ⟨-, err, he⟩ | ⟨cur, hcur, -, rfl, he | ⟨err, he⟩⟩
    · cases he
    · cases he
      have hmem : s.stored w ∈ (s.put w).objects :=
        Table.mem_replace.mpr (Or.inl ⟨rfl, cur, Table.find?_eq_some.mp hcur⟩)
      have hctl : ControlledBy (mgrs p).owner.uid w :=
        controlledBy_setControllerReference hw.write
      exact hkept.snoc (List.mem_append_left _ hmem) hctl
    · cases he
  · intro w hw s h o s' ho
    exact ⟨⟨_, x, h.1 x hx, Or.inr hw⟩, h.mono fun _ => past_answer ho⟩

theorem wp_claimOwnedObjects_racing {objs : List (Object β)} {filters : List (Object β → Bool)}
    (h : ∀ x ∈ objs, x ∈ s.past) :
    ((mgrs p).claimOwnedObjects objs filters).wp (racingRely mgrs p) (racingServe mgrs p)
      (racingGuarantee mgrs p) (fun r s => Collected mgrs p [] r.1 s) s := by
  refine Program.wp_mono (RefManager.wp_claimOwnedObjects
    (fun _ st => Collected mgrs p objs st.claimObjs) ⟨h, by simp⟩ ?_) ?_
  · intro done x rest st s hl h
    exact ⟨_, _, h, claimSpec_racing (by simp [hl])⟩
  · rintro _ s ⟨st, h, rfl⟩
    exact ⟨by simp, h.2⟩

theorem racing_compatible (huid : Function.Injective fun p => (mgrs p).owner.uid) :
    (racingSystem (β := β) mgrs).Compatible (RacingInv mgrs) (racingGuarantee mgrs)
      (fun p r s => Collected mgrs p [] r.1 s) where
  env _ _ h hs := h.env hs
  guarantee _ _ _ _ _ h ho hG := h.next huid ho hG
  start _ _ _ _ hprog := by
    obtain ⟨objs, filters, hobjs, rfl⟩ := hprog
    exact wp_claimOwnedObjects_racing hobjs
  stable _ _ _ _ h hs := h.mono fun _ => past_rely_step hs

/-- A controller reference that a step takes away refers to the owner of the manager that
made the step. -/
theorem RacingInv.removed_by {i : Request ω β} {o : Response i} {x : Object β}
    {r : OwnerReference} (h : RacingInv mgrs s) (ho : Ledger.serve p s i o s')
    (hG : racingGuarantee mgrs p s i o s') (hx : x ∈ s.objects) (hr : r ∈ x.ownerReferences)
    (hc : r.isController = true) :
    (∃ y ∈ s'.objects, y.key = x.key ∧ r ∈ y.ownerReferences) ∨
      (r.uid = (mgrs p).owner.uid ∧ ∃ w, i = .update w) := by
  cases i with
  | update w =>
    rcases ho with ⟨rfl, -⟩ | ⟨cur, hcur, hv, rfl, -⟩
    · exact Or.inl ⟨x, hx, rfl, hr⟩
    · obtain ⟨hmem, isMatch, hw⟩ := h.stored_copy hG hcur hv
      have hk : w.key = cur.key := (Table.find?_eq_some.mp hcur).2.symm
      by_cases hkey : x.key = cur.key
      · obtain rfl := Table.eq_of_key hx hmem hkey
        by_cases hrw : r ∈ w.ownerReferences
        · exact Or.inl ⟨_, (Ledger.mem_put hmem hk).mpr (Or.inl rfl), hk, hrw⟩
        · rcases hw with hw | hw
          · simp [hw.not_controller hr] at hc
          · exact Or.inr ⟨hw.uid_of_removed hr hrw, w, rfl⟩
      · exact Or.inl ⟨x, (Ledger.mem_put hmem hk).mpr (Or.inr ⟨hx, hkey⟩), rfl, hr⟩
  | _ => exact Or.inl ⟨x, ho ▸ hx, rfl, hr⟩

theorem kept_by_env {x : Object β} {r : OwnerReference}
    (hs : (racingSystem mgrs : System π (Request ω β) Response _ _).env s s')
    (hx : x ∈ s.objects) (hr : r ∈ x.ownerReferences) :
    ∃ y ∈ s'.objects, y.key = x.key ∧ r ∈ y.ownerReferences := by
  obtain ⟨cur, hcur, w, hk, hrefs, rfl⟩ := hs
  by_cases hkey : x.key = cur.key
  · obtain rfl := Table.eq_of_key hx hcur hkey
    exact ⟨_, (Ledger.mem_put hcur hk).mpr (Or.inl rfl), hk, hrefs ▸ hr⟩
  · exact ⟨x, (Ledger.mem_put hcur hk).mpr (Or.inr ⟨hx, hkey⟩), rfl, hr⟩

def Returned (ls : List (Label π (Request ω β) Response (List (Object β) × Option GoError)))
    (p : π) (x : Object β) : Prop :=
  ∃ claimed err, .finish p (claimed, err) ∈ ls ∧ x ∈ claimed

variable [DecidableEq π]

/-- Control stays exclusive: no object ever has two controller references, the reference to an
owner is taken away only by the manager of that owner, what a manager returns was stored under
the control of its owner, and two managers that both return an object they adopted did so with
a release of that object by the first in between. -/
theorem racing_managers_exclusive (mgrs : π → RefManager ω)
    (huid : Function.Injective fun p => (mgrs p).owner.uid)
    (objects : Table (Object.key : Object β → NamespacedName)) (revision : ℕ)
    (hversions : ∀ x ∈ objects, x.resourceVersion ≤ revision)
    (hone : ∀ x ∈ objects, AtMostOneController x)
    (ls : List (Label π (Request ω β) Response (List (Object β) × Option GoError)))
    (c : Config π (Request ω β) Response (Ledger π β) (List (Object β) × Option GoError))
    (hrun : System.Run (racingSystem mgrs) (System.idle (Ledger.ofObjects objects revision)) ls c) :
    (∀ x ∈ c.state.objects, AtMostOneController x) ∧
    (∀ l d, System.Step (racingSystem mgrs) c l d → ∀ x ∈ c.state.objects,
      ∀ r ∈ x.ownerReferences, r.isController = true → ∀ q, r.uid = (mgrs q).owner.uid →
      (∃ y ∈ d.state.objects, y.key = x.key ∧ r ∈ y.ownerReferences) ∨
        ∃ w o, l = .call q (.update w) o) ∧
    (∀ p r d, System.Step (racingSystem mgrs) c (.finish p r) d →
      ∀ x ∈ r.1, x ∈ c.state.past ∧ ControlledBy (mgrs p).owner.uid x) ∧
    (∀ p q x y, p ≠ q → Returned ls p x → Returned ls q y → x.key = y.key →
      ∀ l₁ a l₂ b l₃, c.state.writes = l₁ ++ a :: (l₂ ++ b :: l₃) →
      a.IsAdoption mgrs → a.writer = p → a.after = x →
      b.IsAdoption mgrs → b.writer = q → b.after = y →
      ∃ r ∈ l₂, r.after.key = x.key ∧ r.writer = p ∧ r.IsRelease mgrs) := by
  have hinit : RacingInv mgrs (Ledger.ofObjects objects revision) :=
    ⟨.init hversions, hone, .nil⟩
  have hinv := (System.inv_idle hinit).run (racing_compatible huid) hrun
  refine ⟨hinv.1.one, ?_, ?_, ?_⟩
  · intro l d hstep x hx r hr hc q hq
    cases hstep with
    | env hs => exact Or.inl (kept_by_env hs hx hr)
    | start => exact Or.inl ⟨x, hx, rfl, hr⟩
    | @call s s' ps p i k o hp hserve =>
      rcases hinv.1.removed_by hserve (hinv.guarantee hp hserve) hx hr hc with hkept | ⟨hp', w, rfl⟩
      · exact Or.inl hkept
      · obtain rfl : p = q := huid (hp'.symm.trans hq)
        exact Or.inr ⟨w, o, rfl⟩
    | finish => exact Or.inl ⟨x, hx, rfl, hr⟩
  · intro p r d hstep
    cases hstep with
    | finish hp => exact (hinv.2 p _ hp).2
  · rintro p q x y - - - hkey l₁ a l₂ b l₃ hl ha rfl rfl hb - rfl
    exact hinv.1.tenure.apart l₁ a l₂ b l₃ hl ha hb hkey

end

/-- A store that only refuses stale updates, and shows `owner` to its manager. -/
def Ledger.handle (owner : Object ω) (p : π) (s : Ledger π β) :
    (i : Request ω β) → Response i × Ledger π β
  | .get _ => (.ok owner, s)
  | .update w =>
    match s.objects.find? w.key with
    | some cur =>
      if cur.resourceVersion = w.resourceVersion then (.ok (s.stored w), s.write p cur w)
      else (.error (.status ⟨.conflict, 409, "the object has been modified"⟩), s)
    | none => (.error (.status ⟨.notFound, 404, "not found"⟩), s)
  | .list _ _ => (.ok [], s)
  | .create o => (.ok o, s)
  | .delete _ => (.ok (), s)
  | .updateOwner o => (.ok o, s)
  | .rand _ => ("", s)

theorem Ledger.serve_handle (owner : Object ω) (p : π) (s : Ledger π β) (i : Request ω β) :
    s.serve p i (s.handle owner p i).1 (s.handle owner p i).2 := by
  cases i with
  | update w =>
    cases h : s.objects.find? w.key with
    | none => simp [serve, handle, h]
    | some cur =>
      by_cases hv : cur.resourceVersion = w.resourceVersion
      · simp [serve, handle, h, hv]
      · simp [serve, handle, h, hv]
  | _ => rfl

section Samples

def sampleOwner (name : String) : Object Unit where
  name := name
  ns := "default"
  uid := name ++ "-uid"
  resourceVersion := 1
  deletionTimestamp := none
  labels := .empty
  annotations := .empty
  ownerReferences := []
  finalizers := []
  body := ()

def rivals (p : Bool) : RefManager Unit where
  selector := fun _ => true
  owner := sampleOwner (if p then "a" else "b")
  schema := ⟨.ok ⟨"", "v1", "Service"⟩⟩

def orphanPod : Object Unit := { sampleOwner "pod" with uid := "pod-1" }

/-- Both managers claim the same copy of an orphan, one after the other. -/
def rivalsAfter (p : Bool) (s : Ledger Bool Unit) : Ledger Bool Unit :=
  (Program.run (Ledger.handle (rivals p).owner p)
    ((rivals p).claimOwnedObjects [orphanPod] []) s).2.2

private theorem run_rivals (p : Bool) (s : Ledger Bool Unit) (hs : orphanPod ∈ s.past) : ∃ ls,
    System.Run (racingSystem rivals) (System.idle s) ls (System.idle (rivalsAfter p s)) :=
  ⟨_, System.run_program (p := p) rfl ⟨[orphanPod], [], by simpa using hs, rfl⟩
    (Program.exec_run (Ledger.serve_handle (rivals p).owner p) _ s)⟩

theorem racing_managers_exclusive_rivals :
    ∃ s : Ledger Bool Unit, s.objects.entries.map (fun x => x.ownerReferences.map (·.uid)) =
      [["a-uid"]] ∧ ∀ x ∈ s.objects, AtMostOneController x := by
  let s₀ : Ledger Bool Unit := Ledger.ofObjects (Table.empty.upsert orphanPod) 1
  obtain ⟨ls₁, hrun₁⟩ := run_rivals true s₀ (by decide)
  obtain ⟨ls₂, hrun₂⟩ := run_rivals false (rivalsAfter true s₀) (by decide)
  exact ⟨_, by decide, (racing_managers_exclusive rivals (by unfold Function.Injective; decide)
    (Table.empty.upsert orphanPod) 1 (by decide) (by decide) _ _ (hrun₁.append hrun₂)).1⟩

end Samples
end FrpProvisioner
