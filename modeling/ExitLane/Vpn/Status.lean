import ExitLane.Vpn.Killswitch

/-!
# What providers report

A provider answers with dictionaries whose keys may be missing; a field of the records below is
`none` where the key is.
-/

namespace ExitLane.Vpn

open Python

inductive InstallationState where
  | notInstalled
  | daemonMissing
  | daemonInactive
  | available
  | unsupported
  | installing
  | failed
  deriving DecidableEq

inductive AuthenticationState where
  | signedIn
  | signedOut
  | configured
  | unconfigured
  | unknown
  deriving DecidableEq

/-- The keys of `status()` that are read; the last two stand under `management`. -/
structure Status where
  installed : Option Bool
  available : Option Bool
  daemonActive : Option Bool
  authenticated : Option Bool
  connected : Bool
  countryCode : Option Text
  errorCode : Option Text
  installation : Option InstallationState
  authentication : Option AuthenticationState
  deriving DecidableEq

/-- The answer of `connect`, `disconnect` and `prepare_activation`. -/
structure Result where
  ok : Bool
  errorCode : Option Text
  deriving DecidableEq

def Result.success : Result := ⟨true, none⟩
def Result.failure (code : String) : Result := ⟨false, some code.toList⟩

end ExitLane.Vpn
