import Mathlib.Logic.Relation
import Mathlib.Data.List.Basic

/-! Programs that act on the world through requests. A program is the tree of its
requests: what it does next depends on the response, and nothing else is shared with
the server. A server is the relation of the responses it may give in a state and the
states it may leave behind, so failures and stale answers are responses like any other. -/
namespace Effect

inductive Program (ι : Type) (ο : ι → Type) (α : Type) where
  | pure (a : α)
  | request (i : ι) (k : ο i → Program ι ο α)

/-- `serve s i o s'`: in state `s` the request `i` may be answered by `o`, leaving `s'`. -/
abbrev Server (ι : Type) (ο : ι → Type) (σ : Type) := σ → (i : ι) → ο i → σ → Prop

namespace Program
variable {ι : Type} {ο : ι → Type} {α β γ σ : Type}

def bind : Program ι ο α → (α → Program ι ο β) → Program ι ο β
  | pure a, f => f a
  | request i k, f => request i fun o => (k o).bind f

def call (i : ι) : Program ι ο (ο i) := request i pure

instance : Monad (Program ι ο) where
  pure := pure
  bind := bind

@[simp] theorem bind_pure (p : Program ι ο α) : p.bind pure = p := by
  induction p with
  | pure a => rfl
  | request i k ih => simp only [bind, ih]

theorem bind_assoc (p : Program ι ο α) (f : α → Program ι ο β) (g : β → Program ι ο γ) :
    (p.bind f).bind g = p.bind fun a => (f a).bind g := by
  induction p with
  | pure a => rfl
  | request i k ih => simp only [bind, ih]

instance : LawfulMonad (Program ι ο) :=
  LawfulMonad.mk' (Program ι ο) bind_pure (fun _ _ => rfl) bind_assoc

/-- Weakest precondition of `p` for the postcondition `Q`, where in addition every answered
request satisfies `G`. Before each request the state may move along `R`. -/
def wp (R : σ → σ → Prop) (serve G : Server ι ο σ) :
    Program ι ο α → (α → σ → Prop) → σ → Prop
  | pure a, Q, s => Q a s
  | request i k, Q, s => ∀ s₁, R s s₁ → ∀ o s', serve s₁ i o s' →
      G s₁ i o s' ∧ wp R serve G (k o) Q s'

section Rules
variable {R : σ → σ → Prop} {serve G : Server ι ο σ} {Q P : α → σ → Prop} {s : σ}

theorem wp_pure {a : α} : wp R serve G (Pure.pure a : Program ι ο α) Q s ↔ Q a s := Iff.rfl

theorem wp_mono {p : Program ι ο α} (h : wp R serve G p Q s) (hQ : ∀ a s, Q a s → P a s) :
    wp R serve G p P s := by
  induction p generalizing s with
  | pure a => exact hQ a s h
  | request i k ih =>
    intro s₁ hs o s' ho
    exact ⟨(h s₁ hs o s' ho).1, ih o (h s₁ hs o s' ho).2⟩

theorem wp_bind {p : Program ι ο α} {f : α → Program ι ο β} {Q : β → σ → Prop} :
    wp R serve G (p >>= f) Q s ↔ wp R serve G p (fun a s' => wp R serve G (f a) Q s') s := by
  induction p generalizing s with
  | pure a => exact Iff.rfl
  | request i k ih =>
    exact forall₂_congr fun s₁ _ => forall₃_congr fun o s' _ => and_congr_right fun _ => ih o

theorem wp_trivial (p : Program ι ο α) :
    wp R serve (fun _ _ _ _ => True) p (fun _ _ => True) s := by
  induction p generalizing s with
  | pure a => trivial
  | request i k ih => exact fun _ _ o _ _ => ⟨trivial, ih o⟩

theorem wp_seq {p : Program ι ο α} {f : α → Program ι ο β} {Q : β → σ → Prop}
    (hp : wp R serve G p P s) (hf : ∀ a s, P a s → wp R serve G (f a) Q s) :
    wp R serve G (p >>= f) Q s := wp_bind.mpr (wp_mono hp hf)

/-- A request under interference: `A` holds before it and survives the other movements. -/
theorem wp_call_bind {i : ι} {f : ο i → Program ι ο β} {Q : β → σ → Prop} (A : σ → Prop)
    (hA : A s) (hR : ∀ s s', A s → R s s' → A s')
    (h : ∀ s, A s → ∀ o s', serve s i o s' → G s i o s' ∧ wp R serve G (f o) Q s') :
    wp R serve G (call i >>= f) Q s :=
  wp_bind.mpr fun s₁ hs o s' ho => h s₁ (hR s s₁ hA hs) o s' ho

/-- Where nobody else acts, every assertion is stable. -/
theorem stable_alone {A : σ → Prop} : ∀ s s', A s → s = s' → A s' := by
  intro s s' hA hs
  rw [← hs]
  exact hA

/-- A request of a program that has the server for itself. -/
theorem wp_call_bind_alone {i : ι} {f : ο i → Program ι ο β} {Q : β → σ → Prop}
    (h : ∀ o s', serve s i o s' → G s i o s' ∧ wp Eq serve G (f o) Q s') :
    wp Eq serve G (call i >>= f) Q s :=
  wp_call_bind (· = s) rfl stable_alone (fun _ hs => hs ▸ h)

/-- A loop over a list keeps an invariant that may speak about the elements already passed. -/
theorem wp_foldlM {f : β → γ → Program ι ο β} {l : List γ} {b : β}
    (I : List γ → β → σ → Prop) (h0 : I [] b s)
    (hstep : ∀ done x rest b s, l = done ++ x :: rest → I done b s →
      wp R serve G (f b x) (fun b' s' => I (done ++ [x]) b' s') s) :
    wp R serve G (l.foldlM f b) (I l) s := by
  suffices h : ∀ rest done b s, l = done ++ rest → I done b s →
      wp R serve G (rest.foldlM f b) (I l) s from h l [] b s rfl h0
  intro rest
  induction rest with
  | nil =>
    intro done b s hl hI
    rw [List.append_nil] at hl
    exact hl ▸ hI
  | cons x rest ih =>
    intro done b s hl hI
    rw [List.foldlM_cons]
    exact wp_seq (hstep done x rest b s hl hI)
      fun b' s' hI' => ih (done ++ [x]) b' s' (by simp [hl]) hI'

/-- A loop over distinct elements has not passed the one it is at. -/
theorem not_mem_of_nodup {l done rest : List γ} {x : γ} (h : l.Nodup)
    (hl : l = done ++ x :: rest) : x ∉ done := by
  intro hx
  rw [hl, List.nodup_append] at h
  exact h.2.2 x hx x List.mem_cons_self rfl

/-- The precondition survives the movements it already allows for. -/
theorem wp_stable {p : Program ι ο α} {s' : σ} (h : wp R serve G p Q s)
    (hR : ∀ s₁, R s' s₁ → R s s₁) (hQ : ∀ a, Q a s → Q a s') : wp R serve G p Q s' := by
  cases p with
  | pure a => exact hQ a h
  | request i k => exact fun s₁ h₁ => h s₁ (hR s₁ h₁)

end Rules

abbrev Event (ι : Type) (ο : ι → Type) := (i : ι) × ο i

/-- Complete executions, with the requests answered on the way. -/
inductive Exec (serve : Server ι ο σ) :
    Program ι ο α → σ → List (Event ι ο) → α → σ → Prop where
  | pure (a : α) (s : σ) : Exec serve (.pure a) s [] a s
  | request {i : ι} {k : ο i → Program ι ο α} {o : ο i} {s s' t : σ}
      {es : List (Event ι ο)} {a : α} :
      serve s i o s' → Exec serve (k o) s' es a t → Exec serve (.request i k) s (⟨i, o⟩ :: es) a t

theorem Exec.post {serve G : Server ι ο σ} {p : Program ι ο α} {Q : α → σ → Prop} {s t : σ}
    {es : List (Event ι ο)} {a : α} (h : Exec serve p s es a t) (hp : wp Eq serve G p Q s) :
    Q a t := by
  induction h with
  | pure a s => exact hp
  | request hs _ ih => exact ih (hp _ rfl _ _ hs).2

/-- Every answered request of an execution meets the guarantee. -/
theorem Exec.guarantee {serve G : Server ι ο σ} {p : Program ι ο α} {Q : α → σ → Prop} {s t : σ}
    {es : List (Event ι ο)} {a : α} (h : Exec serve p s es a t) (hp : wp Eq serve G p Q s)
    {e : Event ι ο} (he : e ∈ es) : ∃ s₁ s₂, G s₁ e.1 e.2 s₂ := by
  induction h with
  | pure a s => exact nomatch he
  | request hs _ ih =>
    obtain ⟨hg, hk⟩ := hp _ rfl _ _ hs
    rcases List.mem_cons.mp he with rfl | he
    · exact ⟨_, _, hg⟩
    · exact ih hk he

/-- A server of which the execution only used what `serve'` allows. -/
theorem Exec.restrict {serve serve' G : Server ι ο σ} {p : Program ι ο α} {Q : α → σ → Prop}
    {s t : σ} {es : List (Event ι ο)} {a : α} (h : Exec serve p s es a t)
    (hp : wp Eq serve G p Q s)
    (hG : ∀ s i o s', serve s i o s' → G s i o s' → serve' s i o s') :
    Exec serve' p s es a t := by
  induction h with
  | pure a s => exact .pure a s
  | request hs _ ih =>
    obtain ⟨hg, hk⟩ := hp _ rfl _ _ hs
    exact .request (hG _ _ _ _ hs hg) (ih hk)

def traced (serve : Server ι ο σ) : Server ι ο (σ × List (Event ι ο)) :=
  fun s i o s' => serve s.1 i o s'.1 ∧ s'.2 = s.2 ++ [⟨i, o⟩]

theorem wp_traced_call_bind {serve : Server ι ο σ} {G : Server ι ο (σ × List (Event ι ο))}
    {i : ι} {f : ο i → Program ι ο β} {Q : β → σ × List (Event ι ο) → Prop} {s : σ}
    {past : List (Event ι ο)}
    (h : ∀ o s', serve s i o s' → G (s, past) i o (s', past ++ [⟨i, o⟩]) ∧
      wp Eq (traced serve) G (f o) Q (s', past ++ [⟨i, o⟩])) :
    wp Eq (traced serve) G (call i >>= f) Q (s, past) := by
  refine wp_call_bind_alone ?_
  rintro o ⟨s', es⟩ ⟨ho, hes⟩
  dsimp only at ho hes
  rw [hes]
  exact h o s' ho

theorem Exec.traced {serve : Server ι ο σ} {p : Program ι ο α} {s t : σ}
    {es : List (Event ι ο)} {a : α} (h : Exec serve p s es a t) (past : List (Event ι ο)) :
    Exec (Program.traced serve) p (s, past) es a (t, past ++ es) := by
  induction h generalizing past with
  | pure a s =>
    rw [List.append_nil]
    exact .pure a (s, past)
  | @request i k o s s' t es a hs _ ih =>
    have h := ih (past ++ [⟨i, o⟩])
    rw [List.append_assoc] at h
    exact .request ⟨hs, rfl⟩ h

/-- At each answered request of an execution the guarantee holds, with the earlier requests
as the trace. -/
theorem Exec.traced_guarantee {serve : Server ι ο σ} {G : Server ι ο (σ × List (Event ι ο))}
    {p : Program ι ο α} {Q : α → σ × List (Event ι ο) → Prop} {s t : σ}
    {es past before after : List (Event ι ο)} {a : α} {i : ι} {o : ο i}
    (h : Exec serve p s es a t) (hp : wp Eq (Program.traced serve) G p Q (s, past))
    (hes : es = before ++ ⟨i, o⟩ :: after) :
    ∃ s₁ s₂, G (s₁, past ++ before) i o (s₂, past ++ before ++ [⟨i, o⟩]) := by
  induction h generalizing past before with
  | pure a s => simp at hes
  | @request i' k o' s s' t es a hs _ ih =>
    obtain ⟨hG, hk⟩ := hp _ rfl o' (s', past ++ [⟨i', o'⟩]) ⟨hs, rfl⟩
    cases before with
    | nil =>
      obtain ⟨hi, rfl⟩ := List.cons.inj hes
      cases hi
      exact ⟨s, s', by simpa using hG⟩
    | cons e before =>
      rw [List.cons_append, List.cons.injEq] at hes
      obtain ⟨rfl, hes⟩ := hes
      obtain ⟨s₁, s₂, h⟩ := ih hk hes
      exact ⟨s₁, s₂, by simpa using h⟩

/-- What is on the trace stays there. -/
theorem wp_traced_mem {serve : Server ι ο σ} {p : Program ι ο α} {e : Event ι ο}
    {s : σ × List (Event ι ο)} (he : e ∈ s.2) :
    wp Eq (Program.traced serve) (fun _ _ _ _ => True) p (fun _ s' => e ∈ s'.2) s := by
  induction p generalizing s with
  | pure a => exact he
  | request i k ih =>
    rintro _ rfl o s' ho
    exact ⟨trivial, ih o (by rw [ho.2]; exact List.mem_append_left _ he)⟩

def run (handle : σ → (i : ι) → ο i × σ) : Program ι ο α → σ → List (Event ι ο) × α × σ
  | pure a, s => ([], a, s)
  | request i k, s =>
    let r := handle s i
    let t := run handle (k r.1) r.2
    (⟨i, r.1⟩ :: t.1, t.2)

theorem run_bind (handle : σ → (i : ι) → ο i × σ) (p : Program ι ο α) (f : α → Program ι ο β)
    (s : σ) : ((p >>= f).run handle s).2 =
      ((f (p.run handle s).2.1).run handle (p.run handle s).2.2).2 := by
  induction p generalizing s with
  | pure a => rfl
  | request i k ih => exact ih _ _

/-- Whatever its requests are answered, the program makes requests in `P` only and its result
is in `Q`. -/
def Does (P : ι → Prop) (Q : α → Prop) : Program ι ο α → Prop
  | pure a => Q a
  | request i k => P i ∧ ∀ o, (k o).Does P Q

section Does
variable {P : ι → Prop} {Q : α → Prop} {p : Program ι ο α}

theorem does_call_bind {i : ι} {f : ο i → Program ι ο α} (hi : P i)
    (h : ∀ o, (f o).Does P Q) : (call i >>= f).Does P Q := ⟨hi, h⟩

theorem Does.bind {Q' : β → Prop} {f : α → Program ι ο β} (h : p.Does P Q)
    (hf : ∀ a, Q a → (f a).Does P Q') : (p >>= f).Does P Q' := by
  induction p with
  | pure a => exact hf a h
  | request i k ih => exact ⟨h.1, fun o => ih o (h.2 o)⟩

/-- What each of the requests preserves is preserved by the program. -/
theorem Does.wp {I : σ → Prop} {serve G : Server ι ο σ} {s : σ} (h : p.Does P Q) (hI : I s)
    (hstep : ∀ s i o s', P i → I s → serve s i o s' → G s i o s' ∧ I s') :
    p.wp Eq serve G (fun a s => Q a ∧ I s) s := by
  induction p generalizing s with
  | pure a => exact ⟨h, hI⟩
  | request i k ih =>
    rintro _ rfl o s' ho
    obtain ⟨hG, hI⟩ := hstep s i o s' h.1 hI ho
    exact ⟨hG, ih o (h.2 o) hI⟩

end Does

theorem exec_run {serve : Server ι ο σ} {handle : σ → (i : ι) → ο i × σ}
    (h : ∀ s i, serve s i (handle s i).1 (handle s i).2) (p : Program ι ο α) (s : σ) :
    Exec serve p s (run handle p s).1 (run handle p s).2.1 (run handle p s).2.2 := by
  induction p generalizing s with
  | pure a => exact .pure a s
  | request i k ih => exact .request (h s i) (ih _ _)

def served (handle : σ → (i : ι) → ο i × σ) : Server ι ο σ := fun s i o s' => handle s i = (o, s')

theorem exec_served (handle : σ → (i : ι) → ο i × σ) (p : Program ι ο α) (s : σ) :
    Exec (served handle) p s (run handle p s).1 (run handle p s).2.1 (run handle p s).2.2 :=
  exec_run (fun _ _ => rfl) p s

/-- A handler whose answers the server allows shows that an execution exists. -/
theorem exists_exec {serve : Server ι ο σ} {handle : σ → (i : ι) → ο i × σ}
    {G : Server ι ο (σ × List (Event ι ο))} {p : Program ι ο α}
    {Q : α → σ × List (Event ι ο) → Prop} {s : σ}
    (h : ∀ s i, serve s i (handle s i).1 (handle s i).2)
    (hp : wp Eq (Program.traced (served handle)) G p Q (s, [])) :
    ∃ es a t, Exec serve p s es a t ∧ Q a (t, es) := by
  refine ⟨_, _, _, exec_run h p s, ?_⟩
  exact ((exec_served handle p s).traced []).post hp

end Program
end Effect
