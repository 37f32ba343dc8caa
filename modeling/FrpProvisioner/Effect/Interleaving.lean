import FrpProvisioner.Effect.Program
import Mathlib.Logic.Function.Basic

/-! Processes that issue their requests to one shared server, one request at a time and
in any order, while the environment moves the server state in between. An invariant of
all reachable states is proved for each process alone: its requests keep the invariant
as long as the other processes and the environment do. -/
namespace Effect

/-- Process `p` may start a program in a state, its requests are answered by `serve p`, and
`env` moves the state at any time. -/
structure System (π ι : Type) (ο : ι → Type) (σ α : Type) where
  start : π → σ → Program ι ο α → Prop
  serve : π → Server ι ο σ
  env : σ → σ → Prop

structure Config (π ι : Type) (ο : ι → Type) (σ α : Type) where
  state : σ
  procs : π → Option (Program ι ο α)

inductive Label (π ι : Type) (ο : ι → Type) (α : Type) where
  | env
  | start (p : π)
  | call (p : π) (i : ι) (o : ο i)
  | finish (p : π) (a : α)

namespace System
variable {π ι : Type} {ο : ι → Type} {σ α : Type}

def idle (s : σ) : Config π ι ο σ α := ⟨s, fun _ => none⟩

inductive Step [DecidableEq π] (M : System π ι ο σ α) :
    Config π ι ο σ α → Label π ι ο α → Config π ι ο σ α → Prop where
  | env {s s' : σ} {ps : π → Option (Program ι ο α)} : M.env s s' →
      Step M ⟨s, ps⟩ .env ⟨s', ps⟩
  | start {s : σ} {ps : π → Option (Program ι ο α)} {p : π} {prog : Program ι ο α} :
      ps p = none → M.start p s prog →
      Step M ⟨s, ps⟩ (.start p) ⟨s, Function.update ps p (some prog)⟩
  | call {s s' : σ} {ps : π → Option (Program ι ο α)} {p : π} {i : ι}
      {k : ο i → Program ι ο α} {o : ο i} :
      ps p = some (.request i k) → M.serve p s i o s' →
      Step M ⟨s, ps⟩ (.call p i o) ⟨s', Function.update ps p (some (k o))⟩
  | finish {s : σ} {ps : π → Option (Program ι ο α)} {p : π} {a : α} :
      ps p = some (.pure a) → Step M ⟨s, ps⟩ (.finish p a) ⟨s, Function.update ps p none⟩

inductive Run [DecidableEq π] (M : System π ι ο σ α) :
    Config π ι ο σ α → List (Label π ι ο α) → Config π ι ο σ α → Prop where
  | nil (c : Config π ι ο σ α) : Run M c [] c
  | cons {c d e : Config π ι ο σ α} {l : Label π ι ο α} {ls : List (Label π ι ο α)} :
      Step M c l d → Run M d ls e → Run M c (l :: ls) e

section Runs
variable [DecidableEq π] {M : System π ι ο σ α}

theorem Run.append {c d e : Config π ι ο σ α} {ls ms : List (Label π ι ο α)}
    (h : Run M c ls d) (h' : Run M d ms e) : Run M c (ls ++ ms) e := by
  induction h with
  | nil c => exact h'
  | cons hs _ ih => exact .cons hs (ih h')

/-- An invariant of single steps is an invariant of runs. -/
theorem Run.invariant {c d : Config π ι ο σ α} {ls : List (Label π ι ο α)}
    {I : Config π ι ο σ α → Prop} (hstep : ∀ c l d, I c → Step M c l d → I d)
    (h : Run M c ls d) (hc : I c) : I d := by
  induction h with
  | nil c => exact hc
  | cons hs _ ih => exact ih (hstep _ _ _ hc hs)

/-- Execution of one program from start to finish, as steps of its process. -/
theorem run_of_exec {p : π} {prog : Program ι ο α} {s t : σ} {es : List (Program.Event ι ο)}
    {a : α} (h : Program.Exec (M.serve p) prog s es a t) (ps : π → Option (Program ι ο α))
    (hp : ps p = some prog) :
    Run M ⟨s, ps⟩ (es.map (fun e => .call p e.1 e.2))
      ⟨t, Function.update ps p (some (.pure a))⟩ := by
  induction h generalizing ps with
  | pure a s =>
    rw [← hp, Function.update_eq_self]
    exact .nil _
  | @request i k o s s' t es a hs _ ih =>
    refine .cons (.call hp hs) ?_
    simpa using ih (Function.update ps p (some (k o))) (Function.update_self ..)

theorem run_program {p : π} {prog : Program ι ο α} {s t : σ} {es : List (Program.Event ι ο)}
    {a : α} {ps : π → Option (Program ι ο α)} (hp : ps p = none) (hstart : M.start p s prog)
    (h : Program.Exec (M.serve p) prog s es a t) :
    Run M ⟨s, ps⟩ (.start p :: (es.map (fun e => .call p e.1 e.2) ++ [.finish p a])) ⟨t, ps⟩ := by
  refine .cons (.start hp hstart) ?_
  refine (run_of_exec h (Function.update ps p (some prog)) (Function.update_self ..)).append ?_
  have hps : Function.update (Function.update (Function.update ps p (some prog)) p
      (some (.pure a))) p none = ps := by
    simp only [Function.update_idem]
    rw [← hp, Function.update_eq_self]
  have hfinish : Step M ⟨t, Function.update (Function.update ps p (some prog)) p (some (.pure a))⟩
      (.finish p a) ⟨t, Function.update (Function.update (Function.update ps p (some prog)) p
        (some (.pure a))) p none⟩ := .finish (Function.update_self ..)
  rw [hps] at hfinish
  exact .cons hfinish (.nil _)

def Reaches (M : System π ι ο σ α) (c d : Config π ι ο σ α) : Prop := ∃ ls, Run M c ls d

theorem Reaches.trans {c d e : Config π ι ο σ α} (h : Reaches M c d) (h' : Reaches M d e) :
    Reaches M c e := by
  obtain ⟨ls, hls⟩ := h
  obtain ⟨ms, hms⟩ := h'
  exact ⟨ls ++ ms, hls.append hms⟩

theorem Step.reaches {c d : Config π ι ο σ α} {l : Label π ι ο α} (h : Step M c l d) :
    Reaches M c d := ⟨[l], .cons h (.nil d)⟩

/-- A process whose program begins with a request has it answered. -/
theorem reaches_request {p : π} {i : ι} {k : ο i → Program ι ο α} {o : ο i} {s s' : σ}
    {ps : π → Option (Program ι ο α)} (h : M.serve p s i o s') :
    Reaches M ⟨s, Function.update ps p (some (.request i k))⟩
      ⟨s', Function.update ps p (some (k o))⟩ := by
  have hstep := (Step.call (M := M) (Function.update_self p (some (.request i k)) ps) h).reaches
  rwa [Function.update_idem] at hstep

theorem reaches_finish {p : π} {a : α} {s : σ} {ps : π → Option (Program ι ο α)}
    (hp : ps p = none) :
    Reaches M ⟨s, Function.update ps p (some (.pure a))⟩ ⟨s, ps⟩ := by
  have hstep := (Step.finish (M := M) (s := s) (Function.update_self p (some (.pure a)) ps)).reaches
  rwa [Function.update_idem, ← hp, Function.update_eq_self] at hstep

end Runs

def restrict (M : System π ι ο σ α) (C : σ → (i : ι) → ο i → Prop) : System π ι ο σ α where
  start := M.start
  serve p s i o s' := M.serve p s i o s' ∧ C s i o
  env := M.env

section Invariant
variable (M : System π ι ο σ α) (I : σ → Prop) (G : π → Server ι ο σ)

/-- What happens to process `p` between two of its requests. -/
def Rely (p : π) (s s' : σ) : Prop :=
  I s' ∧ (M.env s s' ∨ ∃ q, q ≠ p ∧ ∃ i o, M.serve q s i o s' ∧ G q s i o s')

/-- The answers process `p` sees in states that satisfy the invariant. -/
def serveIn (p : π) : Server ι ο σ := fun s i o s' => I s ∧ M.serve p s i o s'

/-- Each process keeps its guarantee from every state in which it may start, whatever the
others do within theirs; a guaranteed answer keeps the invariant, and so does `env`. -/
structure Compatible (Q : π → α → σ → Prop) : Prop where
  env : ∀ s s', I s → M.env s s' → I s'
  guarantee : ∀ p s i o s', I s → M.serve p s i o s' → G p s i o s' → I s'
  start : ∀ p s prog, I s → M.start p s prog →
    prog.wp (Relation.ReflTransGen (M.Rely I G p)) (M.serveIn I p) (G p) (Q p) s
  stable : ∀ p a s s', Q p a s → M.Rely I G p s s' → Q p a s'

/-- The invariant of configurations: the state satisfies `I`, and each running program still
meets its guarantee. -/
def Inv (Q : π → α → σ → Prop) (c : Config π ι ο σ α) : Prop :=
  I c.state ∧ ∀ p prog, c.procs p = some prog →
    prog.wp (Relation.ReflTransGen (M.Rely I G p)) (M.serveIn I p) (G p) (Q p) c.state

end Invariant

variable {M : System π ι ο σ α} {I : σ → Prop} {G : π → Server ι ο σ} {Q : π → α → σ → Prop}

theorem inv_idle {s : σ} (h : I s) : M.Inv I G Q (idle s) := ⟨h, by simp [idle]⟩

private theorem wp_rely (hM : M.Compatible I G Q) {p : π} {prog : Program ι ο α} {s s' : σ}
    (h : prog.wp (Relation.ReflTransGen (M.Rely I G p)) (M.serveIn I p) (G p) (Q p) s)
    (hs : M.Rely I G p s s') :
    prog.wp (Relation.ReflTransGen (M.Rely I G p)) (M.serveIn I p) (G p) (Q p) s' :=
  Program.wp_stable h (fun _ h₁ => .head hs h₁) fun a ha => hM.stable p a s s' ha hs

/-- The answer to a request of a reachable configuration meets the guarantee. -/
theorem Inv.guarantee {c : Config π ι ο σ α} {p : π} {i : ι} {k : ο i → Program ι ο α}
    {o : ο i} {s' : σ} (h : M.Inv I G Q c) (hp : c.procs p = some (.request i k))
    (hs : M.serve p c.state i o s') : G p c.state i o s' :=
  (h.2 p _ hp c.state .refl o s' ⟨h.1, hs⟩).1

variable [DecidableEq π]

/-- Only process `p` changes: its new program has to meet the guarantee, and the others have
to in the new state. -/
private theorem inv_update {s : σ} {ps : π → Option (Program ι ο α)} {p : π}
    {x : Option (Program ι ο α)} (hI : I s)
    (hx : ∀ prog, x = some prog →
      prog.wp (Relation.ReflTransGen (M.Rely I G p)) (M.serveIn I p) (G p) (Q p) s)
    (hps : ∀ q, q ≠ p → ∀ prog, ps q = some prog →
      prog.wp (Relation.ReflTransGen (M.Rely I G q)) (M.serveIn I q) (G q) (Q q) s) :
    M.Inv I G Q ⟨s, Function.update ps p x⟩ := by
  refine ⟨hI, fun q prog hq => ?_⟩
  change Function.update ps p x q = some prog at hq
  by_cases hqp : q = p
  · subst hqp
    rw [Function.update_self] at hq
    exact hx prog hq
  · rw [Function.update_of_ne hqp] at hq
    exact hps q hqp prog hq

theorem Inv.step (hM : M.Compatible I G Q) {c d : Config π ι ο σ α} {l : Label π ι ο α}
    (h : M.Inv I G Q c) (hs : Step M c l d) : M.Inv I G Q d := by
  cases hs with
  | @env s s' ps henv =>
    have hI := hM.env s s' h.1 henv
    exact ⟨hI, fun p prog hp => wp_rely hM (h.2 p prog hp) ⟨hI, .inl henv⟩⟩
  | @start s ps p prog hnone hstart =>
    refine inv_update h.1 (fun prog' hx => ?_) fun q _ prog' hq => h.2 q prog' hq
    exact Option.some.inj hx ▸ hM.start p s prog h.1 hstart
  | @call s s' ps p i k o hp hserve =>
    obtain ⟨hg, hk⟩ := h.2 p _ hp s .refl o s' ⟨h.1, hserve⟩
    have hI := hM.guarantee p s i o s' h.1 hserve hg
    refine inv_update hI (fun prog' hx => Option.some.inj hx ▸ hk) fun q hqp prog' hq => ?_
    exact wp_rely hM (h.2 q prog' hq) ⟨hI, .inr ⟨p, Ne.symm hqp, i, o, hserve, hg⟩⟩
  | @finish s ps p a hp =>
    exact inv_update h.1 (fun _ hx => absurd hx (by simp)) fun q _ prog' hq => h.2 q prog' hq

theorem Inv.run (hM : M.Compatible I G Q) {c d : Config π ι ο σ α} {ls : List (Label π ι ο α)}
    (h : M.Inv I G Q c) (hr : Run M c ls d) : M.Inv I G Q d :=
  hr.invariant (fun _ _ _ hc hs => hc.step hM hs) h

end System
end Effect
