import Blockchecks.StrategyText

namespace Blockchecks.TcpFanout

open StrategyText

def googlevideoRangeSize : Nat := 17408

def specialDomainMarkers : List String := ["googlevideo"]

structure CurlProfile where
  useEch : Bool
  headersExtra : String
  special : Bool
  deriving DecidableEq, Repr

def curlProfile (domain : String) (protocol : String := "tls12") (disableEch : Bool := false) :
    CurlProfile :=
  let isHttp := protocol == "http"
  let dom := (lower domain).takeWhile (· ≠ '/')
  let isGv := !isHttp && specialDomainMarkers.any (contains dom)
  { useEch := !isHttp && !disableEch && !isGv
    headersExtra := if isGv then
        ", \"Range\": \"bytes=0-" ++ toString (googlevideoRangeSize - 1) ++ "\""
      else ""
    special := isGv }

def profilesCompatible (a b : CurlProfile) : Bool :=
  decide ((a.useEch, a.headersExtra, a.special) = (b.useEch, b.headersExtra, b.special))

end Blockchecks.TcpFanout
