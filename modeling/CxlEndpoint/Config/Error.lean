import CxlEndpoint.Text.Hex

/-!
# Configuration errors

* `ConfigError`: why a device cannot be built from its configuration.
* `ConfigError.message`: the same in words. Sizes are hexadecimal, counts decimal.
-/

namespace CxlEndpoint

/-- Why a configuration is refused. Regions are counted from zero. -/
inductive ConfigError where
  | malformed
  | invalidPayloadSize (size : Nat)
  | labelsTooLarge (size : Nat)
  | tooManyRegions (count : Nat)
  | invalidBlockSize (index blockSize : Nat)
  | emptyRegion (index : Nat)
  | unalignedRegion (index length blockSize : Nat)
  | tooManyBlocks (blocks : Nat)
  | regionOrder (former latter : Nat)
  deriving DecidableEq, Repr

namespace ConfigError

private def hex (n : Nat) : String := "0x" ++ Hex.text n

/-- The error in words. -/
def message : ConfigError → String
  | malformed => "invalid configuration"
  | invalidPayloadSize size => s!"maximum payload size {size} is outside 256..=1MiB"
  | labelsTooLarge size => s!"label storage size {hex size} does not fit in 32 bits"
  | tooManyRegions count => s!"too many dynamic capacity regions: {count} (max 8)"
  | invalidBlockSize index blockSize => s!"region {index}: invalid block size {hex blockSize}"
  | emptyRegion index => s!"region {index}: empty region"
  | unalignedRegion index length blockSize =>
    s!"region {index}: length {hex length} is not a multiple of block size {hex blockSize}"
  | tooManyBlocks blocks =>
    s!"dynamic capacity spans {blocks} minimum-size blocks (max 16777216)"
  | regionOrder former latter => s!"regions {former} and {latter} overlap or are out of order"

end ConfigError

end CxlEndpoint
