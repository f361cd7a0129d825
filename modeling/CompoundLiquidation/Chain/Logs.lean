import CompoundLiquidation.Python.Bytes
import CompoundLiquidation.Python.Proc

/-!
# Logs and the third-party functions that read them

`eth_abi` and `web3` are not part of the repository. `EthLibs` carries the two functions the
handlers call. What is built into their types is what the libraries document: `decode` returns one
value for each requested type, of that type, or raises.

`converter` turns a push message of the light node into log records. It raises as soon as one
field of one event is malformed, and a message without events converts to no logs.
-/

namespace CompoundLiquidation

open Python

/-! ## ABI values -/

/-- The ABI types the event tables name. -/
inductive AbiType where
  | address
  | uint256
  | int192
  | int192Array
  | bytes
  | bytes32
deriving DecidableEq, Repr

/-- The value `eth_abi` returns for a type. Addresses are text. -/
@[reducible] def AbiType.Value : AbiType → Type
  | .address => String
  | .uint256 => ℕ
  | .int192 => ℤ
  | .int192Array => List ℤ
  | .bytes => Bytes
  | .bytes32 => Bytes

/-- The tuple `eth_abi` returns for a list of types. -/
@[reducible] def AbiTuple : List AbiType → Type
  | [] => Unit
  | t :: ts => t.Value × AbiTuple ts

instance : (t : AbiType) → DecidableEq t.Value
  | .address => inferInstanceAs (DecidableEq String)
  | .uint256 => inferInstanceAs (DecidableEq ℕ)
  | .int192 => inferInstanceAs (DecidableEq ℤ)
  | .int192Array => inferInstanceAs (DecidableEq (List ℤ))
  | .bytes => inferInstanceAs (DecidableEq Bytes)
  | .bytes32 => inferInstanceAs (DecidableEq Bytes)

instance : (ts : List AbiType) → DecidableEq (AbiTuple ts)
  | [] => inferInstanceAs (DecidableEq Unit)
  | t :: ts =>
    have := instDecidableEqAbiTuple ts
    inferInstanceAs (DecidableEq (t.Value × AbiTuple ts))

/-- The third-party functions. -/
structure EthLibs where
  /-- `Web3.to_checksum_address`. -/
  toChecksumAddress : String → Except Error String
  /-- `eth_abi.decode`. -/
  decode : (ts : List AbiType) → Bytes → Except Error (AbiTuple ts)

/-! ## Log records -/

/-- `hexbytes.HexBytes.hex`. -/
def hexBytesHex (b : Bytes) : String := "0x" ++ hexOf b

theorem toLower_hexBytesHex (b : Bytes) : (hexBytesHex b).toLower = hexBytesHex b := by
  have hchars : ∀ c ∈ (hexBytesHex b).toList, c.toLower = c := by
    intro c hc
    rw [hexBytesHex, hexOf, String.toList_append, List.mem_append] at hc
    rcases hc with hc | hc
    · have hprefix : "0x".toList.Forall fun c ↦ c.toLower = c := by decide +kernel
      exact List.forall_iff_forall_mem.mp hprefix c hc
    · exact toLower_of_mem_hexChars (String.toList_ofList ▸ hc)
  apply String.toList_injective
  rw [toList_toLower, List.map_congr_left hchars, List.map_id']

/-- A log record as the handlers read it. `removed` is `log.get('removed', False)`. -/
structure LogReceipt where
  removed : Bool := false
  address : String
  topics : List Bytes
  data : String
  blockNumber : ℤ
  blockHash : Bytes
  transactionIndex : ℤ
  transactionHash : Bytes
deriving DecidableEq

/-- `log['topics'][0].hex()`. -/
def LogReceipt.topic0 (log : LogReceipt) : Except Error String :=
  okOr (log.topics.head?.map hexBytesHex) .indexError

/-- `bytes.fromhex(text[2:])`. -/
def bytesFromPrefixed (text : String) : Except Error Bytes :=
  okOr (bytesFromHex (strFrom text 2)) .valueError

theorem bytesFromPrefixed_hexBytesHex (bs : Bytes) :
    bytesFromPrefixed (hexBytesHex bs) = .ok bs := by
  have hdrop : strFrom (hexBytesHex bs) 2 = hexOf bs := by
    rw [strFrom, hexBytesHex, hexOf]
    simp [String.toList_append]
  rw [bytesFromPrefixed, hdrop, bytesFromHex_hexOf, okOr_some]

/-- The topics of a log are read back. -/
theorem mapM_bytesFromPrefixed (topics : List Bytes) :
    (topics.map hexBytesHex).mapM bytesFromPrefixed = .ok topics := by
  induction topics with
  | nil => rfl
  | cons topic topics ih =>
    rw [List.map_cons, List.mapM_cons, bytesFromPrefixed_hexBytesHex, ok_bind, ih]
    rfl

/-- `eth_abi.decode(ts, bytes.fromhex(log['data'][2:]))`. -/
def LogReceipt.decodeData (lib : EthLibs) (log : LogReceipt) (ts : List AbiType) :
    Except Error (AbiTuple ts) :=
  bytesFromPrefixed log.data >>= lib.decode ts

/-! ## Push messages -/

/-- An event of a light-node message. -/
structure LogEventLight where
  address : String
  topics : List String
  txIndex : ℤ
  data : String
  transactionHash : String
deriving DecidableEq

/-- A light-node message. `events` is `none` when the key is missing. -/
structure LogReceiptLight where
  blockHash : String
  blockNumber : ℤ
  events : Option (List LogEventLight)
deriving DecidableEq

/-- The loop body of `converter`. The records it builds have no `removed` key. -/
def converterEvent (lib : EthLibs) (dct : LogReceiptLight) (v : LogEventLight) :
    Except Error LogReceipt := do
  let address ← lib.toChecksumAddress v.address
  let topics ← v.topics.mapM bytesFromPrefixed
  let blockHash ← bytesFromPrefixed dct.blockHash
  let transactionHash ← bytesFromPrefixed v.transactionHash
  return {
    address := address
    topics := topics
    data := v.data
    blockNumber := dct.blockNumber
    blockHash := blockHash
    transactionIndex := v.txIndex
    transactionHash := transactionHash }

/-- `converter`. -/
def converter (lib : EthLibs) (dct : LogReceiptLight) : Except Error (List LogReceipt) :=
  match dct.events with
  | some events => events.mapM (converterEvent lib dct)
  | none => .ok []

/-! ## Static data

For a closed example the two functions are needed as programs. `staticLibs` decodes sequences of
static values as the library does, and knows the checksummed spelling of the addresses it is
given. -/

/-- The value of a word of static type; the unused bytes of an address must be zero. -/
def decodeWord : (t : AbiType) → Bytes → Except Error t.Value
  | .address, w =>
    if natOfBytes (w.take 12) = 0 then .ok (hexBytesHex (w.drop 12)) else .error .valueError
  | .uint256, w => .ok (natOfBytes w)
  | .bytes32, w => .ok w
  | .int192, _ => .error .typeError
  | .int192Array, _ => .error .typeError
  | .bytes, _ => .error .typeError

/-- A sequence of static values. -/
def decodeStatic : (ts : List AbiType) → Bytes → Except Error (AbiTuple ts)
  | [], _ => .ok ()
  | t :: ts, data =>
    if data.length < 32 then .error .valueError
    else do
      let v ← decodeWord t (data.take 32)
      let vs ← decodeStatic ts (data.drop 32)
      return (v, vs)

/-- The libraries on static data, for addresses whose checksummed spelling `known` lists. -/
def staticLibs (known : List (String × String)) : EthLibs where
  toChecksumAddress a := okOr (known.lookup a) .valueError
  decode := decodeStatic

end CompoundLiquidation
