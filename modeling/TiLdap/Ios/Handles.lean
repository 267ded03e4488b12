import TiLdap.Ios.Callbacks
import TiLdap.Session.Report

namespace TiLdap.Ios

open OpenLdap Report

namespace World

def report (w : World) : Report SearchResultProxy := ⟨w.fired,w.faults,w.orphans⟩

def HandleSafe (w : World) : Prop := w.report.HandleSafe

end World

end TiLdap.Ios
