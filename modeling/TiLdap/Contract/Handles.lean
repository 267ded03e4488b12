import TiLdap.Android.Handles
import TiLdap.Ios.Handles

namespace TiLdap

open Framework

end TiLdap
