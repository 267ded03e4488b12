import Mathlib.Algebra.Ring.Int.Defs
import Mathlib.Algebra.Ring.Nat
import Mathlib.Data.Int.Order.Basic

namespace TiLdap.Android

/-- The timeouts among the options of a connection. The library stores what it is given; what is
not positive is no timeout. -/
structure LDAPConnectionOptions where
  connectTimeoutMillis : Int32
  responseTimeoutMillis : Int64
  deriving DecidableEq, Repr

namespace LDAPConnectionOptions

/-- Both products are computed as ints; the second is widened afterwards. -/
def setTimeLimit (o : LDAPConnectionOptions) (value : Int32) : LDAPConnectionOptions :=
  let value := if value<0 then 0 else value
  { o with
    connectTimeoutMillis := value*1000
    responseTimeoutMillis := (value*1000).toInt64 }

def getTimeLimit (o : LDAPConnectionOptions) : Int32 := o.connectTimeoutMillis/1000

/-- The milliseconds that a time limit in seconds asks for. -/
def millis (value : Int32) : Int := 1000*max value.toInt 0

theorem setTimeLimit_connect (o : LDAPConnectionOptions) (v : Int32) :
    (o.setTimeLimit v).connectTimeoutMillis.toInt=(millis v).bmod (2^32) := by
  have h0 : v<0 ↔ v.toInt<0 := Int32.lt_iff_toInt_lt
  have hk : (1000 : Int32).toInt=1000 := by decide
  simp only [setTimeLimit,millis]
  split_ifs with h
  · have hm : max v.toInt 0=0 := max_eq_right (le_of_lt (h0.mp h))
    rw [hm]
    decide
  · have hm : max v.toInt 0=v.toInt := max_eq_left (not_lt.mp fun hn => h (h0.mpr hn))
    rw [hm,Int32.toInt_mul,hk,Int.mul_comm]

theorem setTimeLimit_response (o : LDAPConnectionOptions) (v : Int32) :
    (o.setTimeLimit v).responseTimeoutMillis.toInt=
      (o.setTimeLimit v).connectTimeoutMillis.toInt := by
  simp [setTimeLimit]

theorem getTimeLimit_eq (o : LDAPConnectionOptions) :
    o.getTimeLimit.toInt=o.connectTimeoutMillis.toInt.tdiv 1000 := by
  have hk : (1000 : Int32).toInt=1000 := by decide
  rw [getTimeLimit,Int32.toInt_div_of_ne_right _ _ (by decide),hk]

/-- A product that fits an int is stored as it is. -/
theorem setTimeLimit_fits (o : LDAPConnectionOptions) {v : Int32} (h : 1000*v.toInt<2^31) :
    (o.setTimeLimit v).connectTimeoutMillis.toInt=millis v := by
  rw [setTimeLimit_connect]
  apply Int.bmod_eq_of_le
  · rw [millis]
    omega
  · rw [millis]
    omega

end LDAPConnectionOptions

end TiLdap.Android
