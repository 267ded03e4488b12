import TiLdap.Android.Cursors
import TiLdap.Ios.Cursors

namespace TiLdap

open Framework

/-- The objects of an application that has just been handed a result. -/
def Android.delivered (s : Android.SearchResult) : Android.Objects := ⟨[⟨some s,none⟩],[]⟩

def Ios.delivered (c : OpenLdap.Chain) : Ios.Objects := ⟨[⟨some c,none⟩],[]⟩

end TiLdap
