import TiLdap.Framework.Calls
import TiLdap.Framework.Lists
import Mathlib.Data.List.Forall2

namespace TiLdap.Framework

/-- Objects of two kinds, each named by its place: calls on a source may hand out a new item. -/
structure Pool (ρ η : Type*) where
  sources : List ρ
  items : List η

inductive PoolCall (κ μ : Type*) where
  | source (i : Nat) (c : κ)
  | item (i : Nat) (c : μ)
  deriving DecidableEq

namespace Pool

variable {ρ η κ μ β ε γ : Type*}

/-- A call on an object of a pool; one on an object that is not there is answered by `gone`. -/
def call (onSource : ρ → κ → Except ε (β × Option η × ρ)) (onItem : η → μ → Except ε (β × η))
    (gone : β) (p : Pool ρ η) : PoolCall κ μ → Except ε (β × Pool ρ η)
  | .source i c => match p.sources[i]? with
    | none => .ok (gone,p)
    | some x => (onSource x c).map fun y =>
        (y.1,⟨p.sources.set i y.2.2,p.items++y.2.1.toList⟩)
  | .item i c => match p.items[i]? with
    | none => .ok (gone,p)
    | some x => (onItem x c).map fun y => (y.1,{ p with items := p.items.set i y.2 })

variable {onSource : ρ → κ → Except ε (β × Option η × ρ)} {onItem : η → μ → Except ε (β × η)}
  {gone : β}

theorem call_source {p : Pool ρ η} {i : Nat} {c : κ} {x x' : ρ} {b : β} {e : Option η}
    (hx : p.sources[i]?=some x) (h : onSource x c=.ok (b,e,x')) :
    p.call onSource onItem gone (.source i c)=
      .ok (b,⟨p.sources.set i x',p.items++e.toList⟩) := by
  simp only [call,hx,h,Except.map]

theorem call_item {p : Pool ρ η} {i : Nat} {c : μ} {x x' : η} {b : β}
    (hx : p.items[i]?=some x) (h : onItem x c=.ok (b,x')) :
    p.call onSource onItem gone (.item i c)=.ok (b,{ p with items := p.items.set i x' }) := by
  simp only [call,hx,h,Except.map]

/-- What a call that succeeds has done. -/
theorem call_ok {p p' : Pool ρ η} {a : PoolCall κ μ} {b : β}
    (h : p.call onSource onItem gone a=.ok (b,p')) :
    p'=p ∨
    (∃i c x e x',a=.source i c ∧ p.sources[i]?=some x ∧ onSource x c=.ok (b,e,x') ∧
      p'=⟨p.sources.set i x',p.items++e.toList⟩) ∨
    (∃i c x x',a=.item i c ∧ p.items[i]?=some x ∧ onItem x c=.ok (b,x') ∧
      p'={ p with items := p.items.set i x' }) := by
  cases a with
  | source i c =>
    cases hx : p.sources[i]? with
    | none =>
      simp only [call,hx,Except.ok.injEq,Prod.mk.injEq] at h
      exact .inl h.2.symm
    | some x =>
      cases ho : onSource x c with
      | error e => simp [call,hx,ho,Except.map] at h
      | ok y =>
        obtain ⟨b',e,x'⟩ := y
        rw [call_source hx ho] at h
        cases h
        exact .inr (.inl ⟨i,c,x,e,x',rfl,hx,ho,rfl⟩)
  | item i c =>
    cases hx : p.items[i]? with
    | none =>
      simp only [call,hx,Except.ok.injEq,Prod.mk.injEq] at h
      exact .inl h.2.symm
    | some x =>
      cases ho : onItem x c with
      | error e => simp [call,hx,ho,Except.map] at h
      | ok y =>
        obtain ⟨b',x'⟩ := y
        rw [call_item hx ho] at h
        cases h
        exact .inr (.inr ⟨i,c,x,x',rfl,hx,ho,rfl⟩)

/-- A source on its own, without the items it hands out. -/
def alone (onSource : ρ → κ → Except ε (β × Option η × ρ)) (x : ρ) (c : κ) : Except ε (β × ρ) :=
  (onSource x c).map fun y => (y.1,y.2.2)

theorem alone_ok {x x' : ρ} {c : κ} {b : β} :
    alone onSource x c=.ok (b,x') ↔ ∃e,onSource x c=.ok (b,e,x') := by
  rw [alone]
  cases onSource x c with
  | error e => simp [Except.map]
  | ok y =>
    obtain ⟨b',e,z⟩ := y
    simp [Except.map]

section Cursors

variable {items : List γ} {item : Option γ → β}

end Cursors

section Lockstep

variable {ρ' η' : Type*} {onSource' : ρ' → κ → Except ε (β × Option η' × ρ')}
  {onItem' : η' → μ → Except ε (β × η')}

end Lockstep

end Pool

end TiLdap.Framework
