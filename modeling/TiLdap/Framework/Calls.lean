import TiLdap.Framework.Run
import Mathlib.Data.List.Basic

namespace TiLdap.Framework

variable {σ τ α β γ ε : Type*}

/-- The state after a call; a call that fails changes nothing. -/
def after (call : σ → α → Except ε (β × σ)) (s : σ) (a : α) : σ :=
  match call s a with
  | .error _ => s
  | .ok (_,s') => s'

section Lockstep

variable {call : σ → α → Except ε (β × σ)} {call' : τ → α → Except ε (β × τ)}

end Lockstep

/-- A cursor over `items` in a machine: `first` puts it on the first item, `next` moves it on, and
no other call touches it. `rest` are the items that follow the one it stands on. -/
structure Cursor (call : σ → α → Except ε (β × σ)) (Inv : σ → Prop) (first next : α)
    (items : List γ) (item : Option γ → β) where
  rest : σ → Option (List γ)
  keep : ∀{s a b s'},Inv s → call s a=.ok (b,s') → Inv s'
  start : ∀{s},Inv s →
    ∃s',call s first=.ok (item items.head?,s') ∧ (items≠[] → rest s'=some items.tail)
  move : ∀{s l},Inv s → rest s=some l →
    ∃s',call s next=.ok (item l.head?,s') ∧ (l≠[] → rest s'=some l.tail)
  frame : ∀{s a b s'},Inv s → call s a=.ok (b,s') → a≠first → a≠next → rest s'=rest s

section Replies

variable {call : σ → α → Except ε (β × σ)} {own : α → Bool}

end Replies

namespace Cursor

variable {call : σ → α → Except ε (β × σ)} {Inv : σ → Prop} {first next : α}
  {items : List γ} {item : Option γ → β}

/-- The cursor of a part is a cursor of the whole: `acts` says that a call on the part is made
through the whole, and `rests` that nothing else changes the part. -/
def within {κ : Type*} {whole : τ → κ → Except ε (β × τ)}
    (c : Cursor call Inv first next items item) (part : τ → Option σ) (name : α → κ)
    (acts : ∀{t s a b s'},part t=some s → call s a=.ok (b,s') →
      ∃t',whole t (name a)=.ok (b,t') ∧ part t'=some s')
    (rests : ∀{t s k b t'},part t=some s → whole t k=.ok (b,t') → part t'=some s ∨
      ∃a s',k=name a ∧ call s a=.ok (b,s') ∧ part t'=some s') :
    Cursor whole (fun t => ∃s,part t=some s ∧ Inv s) (name first) (name next) items item where
  rest t := (part t).bind c.rest
  keep := by
    intro t k b t' ⟨s,hs,hi⟩ h
    rcases rests hs h with hp|⟨a,s',-,hc,hp⟩
    · exact ⟨s,hp,hi⟩
    · exact ⟨s',hp,c.keep hi hc⟩
  start := by
    intro t ⟨s,hs,hi⟩
    obtain ⟨s',hc,hr⟩ := c.start hi
    obtain ⟨t',ht,hp⟩ := acts hs hc
    refine ⟨t',ht,?_⟩
    rw [hp]
    exact hr
  move := by
    intro t l ⟨s,hs,hi⟩ hl
    rw [hs] at hl
    obtain ⟨s',hc,hr⟩ := c.move hi hl
    obtain ⟨t',ht,hp⟩ := acts hs hc
    refine ⟨t',ht,?_⟩
    rw [hp]
    exact hr
  frame := by
    intro t k b t' ⟨s,hs,hi⟩ h hf hn
    rcases rests hs h with hp|⟨a,s',ha,hc,hp⟩
    · rw [hp,hs]
    · rw [hp,hs]
      apply c.frame hi hc
      · exact fun he => hf (by rw [ha,he])
      · exact fun he => hn (by rw [ha,he])

variable [DecidableEq α]

end Cursor

end TiLdap.Framework
