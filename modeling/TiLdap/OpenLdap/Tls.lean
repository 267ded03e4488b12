import Mathlib.Data.Option.Basic

namespace TiLdap.OpenLdap

inductive RequireCert where
  | never
  | hard
  | demand
  | allow
  | attempt
  deriving DecidableEq, Repr

/-- The TLS options of the library that the module writes. -/
@[ext]
structure TlsOptions where
  requireCert : RequireCert := .demand
  certFile : Option String := none
  caCertFile : Option String := none
  deriving DecidableEq, Repr

/-- What a process shares: its TLS options and the default context, which keeps the options it
was built from. -/
structure Tls where
  options : TlsOptions := {}
  context : Option TlsOptions := none
  deriving DecidableEq, Repr

/-- `ldap_pvt_tls_init_def_ctx`: nothing happens to a context that is there, and a failure to
build one leaves none. -/
def Tls.initDefCtx (t : Tls) (built : Bool) : Tls :=
  match t.context with
  | some _ => t
  | none => if built then { t with context := some t.options } else t

/-- The options that a new TLS connection is made under. -/
def Tls.effective (t : Tls) : TlsOptions := t.context.getD t.options

/-- What holds for the TLS connection of a handle: the options of the context, and the
requirement that the handle took over when it was made, which decides on the host name. -/
structure Policy where
  context : TlsOptions
  requireCert : RequireCert
  deriving DecidableEq, Repr

end TiLdap.OpenLdap
