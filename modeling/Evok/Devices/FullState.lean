import Evok.Devices.Aliases

/-!
# The states of the devices

A state is made by `full()` of a device and sent to the clients. Its `dev` is not always the type of
the device.

## Main definitions

* `FullState`: a state of a device.
* `Registered`: a device in `Devices`.
-/

namespace Evok

namespace Devices

/-- `devtype_of`. -/
def devtypeOf (name : String) : String :=
  (devtypeAltnames.lookup name).getD name

/-- `full()` of a device. -/
structure FullState (β : Type) where
  dev : String
  circuit : Option String
  body : β
  deriving DecidableEq

/-- A device in `Devices`, its type is the one of its state. -/
structure Registered (β : Type) where
  devtype : String
  state : FullState β
  dev : devtypeOf state.dev = devtype

end Devices

end Evok
