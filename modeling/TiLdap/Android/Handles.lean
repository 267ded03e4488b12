import TiLdap.Android.Callbacks
import TiLdap.Session.Report

namespace TiLdap.Android.World

open Report

def report (w : World) : Report SearchResultProxy := ⟨w.fired,w.faults,w.orphans⟩

def HandleSafe (w : World) : Prop := w.report.HandleSafe

/-- A result whose count is the number of its entries. -/
def Whole (a : Option SearchResult) : Prop :=
  ∃s,a=some s ∧ s.entryCount=s.searchEntries.length

section Holding

variable {P : Option SearchResult → Prop}

variable (hP : ∀a,Whole a → P a)

include hP

end Holding

end TiLdap.Android.World
