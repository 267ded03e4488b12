import TiLdap.Ios.Process

namespace TiLdap.Ios.Process

open Framework OpenLdap

end TiLdap.Ios.Process
