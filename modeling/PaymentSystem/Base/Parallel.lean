import PaymentSystem.Base.Program

/-! Two programs alone, from related states. Where both make the same calls, and these
answer alike in related states, the runs end alike; where only one of them makes a call,
its effect has to be related by hand. -/
namespace Interleaving

inductive Paired {β γ S : Type} (rel : β → S → γ → S → Prop) : Option (β × S) → Option (γ × S) → Prop where
  | blocked : Paired rel none none
  | ended {b s c s'} (related : rel b s c s') : Paired rel (some (b,s)) (some (c,s'))

def Level {β S : Type} (near : S → S → Prop) (b : β) (s : S) (c : β) (s' : S) : Prop := b = c ∧ near s s'

def Program.Every {Op : Type} {Res : Op → Type} {α : Type} (calls : Op → Prop) (ends : α → Prop) :
    Program Op Res α → Prop
  | .done a => ends a
  | .call op next => calls op ∧ ∀ r, (next r).Every calls ends

section
variable {Op : Type} {Res : Op → Type} {S α β γ δ : Type} {exec : S → (op : Op) → Option (Res op × S)}

theorem Paired.refl {rel : β → S → β → S → Prop} (same : ∀ b s, rel b s b s) (x : Option (β × S)) : Paired rel x x := by
  cases x with
  | none => exact .blocked
  | some out => exact .ended (same out.1 out.2)

theorem Paired.mono {rel rel' : β → S → γ → S → Prop} {x : Option (β × S)} {y : Option (γ × S)}
    (h : Paired rel x y) (imp : ∀ b s c s', rel b s c s' → rel' b s c s') : Paired rel' x y := by
  cases h with
  | blocked => exact .blocked
  | ended related => exact .ended (imp _ _ _ _ related)

theorem Paired.bind {rel : β → S → γ → S → Prop} {rel' : α → S → δ → S → Prop} {p : Program Op Res β}
    {q : Program Op Res γ} {f : β → Program Op Res α} {g : γ → Program Op Res δ} {s s' : S}
    (first : Paired rel (p.alone exec s) (q.alone exec s'))
    (rest : ∀ b s c s', rel b s c s' → Paired rel' ((f b).alone exec s) ((g c).alone exec s')) :
    Paired rel' ((p.bind f).alone exec s) ((q.bind g).alone exec s') := by
  rw [Program.aloneBind,Program.aloneBind]
  generalize p.alone exec s = x at first
  generalize q.alone exec s' = y at first
  cases first with
  | blocked => exact .blocked
  | ended related => exact rest _ _ _ _ related

variable {calls : Op → Prop} {ends : α → Prop} {near : S → S → Prop}

theorem Program.Every.paired {p : Program Op Res α} {s s' : S} (every : p.Every calls ends)
    (alike : ∀ op s s', calls op → near s s' → Paired (Level near) (exec s op) (exec s' op)) (here : near s s') :
    Paired (fun b s c s' => Level near b s c s' ∧ ends b) (p.alone exec s) (p.alone exec s') := by
  induction p generalizing s s' with
  | done a => exact .ended ⟨⟨rfl,here⟩,every⟩
  | call op next ih =>
    obtain ⟨kind,rest⟩ := every
    simp only [Program.alone]
    have first := alike op s s' kind here
    generalize exec s op = x at first
    generalize exec s' op = y at first
    cases first with
    | blocked => exact .blocked
    | @ended r s₁ r' s₁' related =>
      obtain ⟨rfl,here₁⟩ := related
      exact ih r (rest r) here₁

theorem Program.Every.bind {p : Program Op Res β} {f : β → Program Op Res α} {middle : β → Prop}
    (first : p.Every calls middle) (rest : ∀ b, middle b → (f b).Every calls ends) :
    (p.bind f).Every calls ends := by
  induction p with
  | done b => exact rest b first
  | call op next ih => exact ⟨first.1,fun r => ih r (first.2 r)⟩

end

namespace Task
variable {Op : Type} {Val : Op → Type} {σ ε α β : Type} {calls : Op → Prop} {keeps : σ → Prop}

def Steady (calls : Op → Prop) (keeps : σ → Prop) (t : Task Op Val σ ε α) : Prop :=
  ∀ l, keeps l → (t l).Every calls (fun out => keeps out.2)

theorem steadyPure (a : α) : Steady calls keeps (pure a : Task Op Val σ ε α) := fun _ here => here

theorem steadyThrow (e : ε) : Steady calls keeps (throw e : Task Op Val σ ε α) := fun _ here => here

theorem steadyAwait {op : Op} (kind : calls op) : Steady calls keeps (await op : Task Op Val σ ε (Val op)) :=
  fun _ here => ⟨kind,fun _ => here⟩

theorem steadyChange {f : σ → σ} (stays : ∀ l, keeps l → keeps (f l)) :
    Steady calls keeps (change f : Task Op Val σ ε Unit) := fun l here => stays l here

theorem steadyThen {t : Task Op Val σ ε α} {f : α → Task Op Val σ ε β} (first : Steady calls keeps t)
    (rest : ∀ a, Steady calls keeps (f a)) : Steady calls keeps (t >>= f) := by
  intro l here
  refine (first l here).bind ?_
  intro out after
  obtain ⟨r,l'⟩ := out
  cases r with
  | ok a => exact rest a l' after
  | error e => exact after

end Task
end Interleaving
