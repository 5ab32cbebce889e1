import Mathlib.Data.Finset.Basic
import Ppnt.Native.Http1

/-!
# Session keys

Model of `ProxyAuth`, `ProxyConfig` (`ppnt-http/src/proxy.ixx`) and `SessionKey`
(`ppnt-http/src/session_key.ixx`) with their three-way comparisons.  Strings are compared byte by
byte, and an empty `optional` is less than any value.
-/

namespace Ppnt.Native

structure ProxyAuth where
  username : List UInt8
  password : List UInt8
deriving DecidableEq, Repr

/-- The defaulted `operator<=>`. -/
def ProxyAuth.cmp : ProxyAuth → ProxyAuth → Ordering :=
  compareLex (compareOn (·.username)) (compareOn (·.password))

instance : Ord ProxyAuth := ⟨ProxyAuth.cmp⟩

/-- `ProxyConfig`.  `headers` are sent with the CONNECT request. -/
structure ProxyConfig where
  host : List UInt8
  port : Int
  auth : Option ProxyAuth
  headers : List HttpHeader
deriving DecidableEq, Repr

/-- `operator<=>`. -/
def ProxyConfig.cmp : ProxyConfig → ProxyConfig → Ordering :=
  compareLex (compareOn (·.host)) (compareLex (compareOn (·.port)) (compareOn (·.auth)))

instance : Ord ProxyConfig := ⟨ProxyConfig.cmp⟩

structure SessionKey where
  host : List UInt8
  port : Int
  isSsl : Bool
  proxy : Option ProxyConfig
deriving DecidableEq, Repr

/-- The defaulted `operator<=>`, which orders `std::map<SessionKey, HostGroup>`. -/
def SessionKey.cmp : SessionKey → SessionKey → Ordering :=
  compareLex (compareOn (·.host)) (compareLex (compareOn (·.port))
    (compareLex (compareOn (·.isSsl)) (compareOn (·.proxy))))

end Ppnt.Native
