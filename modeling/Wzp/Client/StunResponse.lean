import Wzp.Client.DialCandidates
import Wzp.Lib.Tlv
import Wzp.Proto.CompactSafety

/-!
# STUN Binding Responses

The reflexive address is read from an answer of a public server, bytes that anyone may send.
Every access to them is checked.
-/
namespace Wzp.Client
open Bytes Proto Tlv

def magicCookie : UInt32 := 0x2112A442

def bindingResponse : UInt16 := 0x0101

def attrMappedAddress : UInt16 := 0x0001

def attrXorMappedAddress : UInt16 := 0x0020

def headerLen : ℕ := 20

/-- The errors of parsing. -/
inductive StunError where
  | malformed (message : String)
  | txnMismatch
  | errorResponse (code : UInt16)
  | noMappedAddress
  deriving DecidableEq, Repr

abbrev TxnId := { b : Buf // b.length = 12 }

/-- A number as `{:#x}` prints it, padded to so many digits. -/
def hexText (digits n : ℕ) : String :=
  "0x" ++ String.ofList (List.leftpad digits '0' (Nat.toDigits 16 n))

namespace Stun

def cookieBytes : Buf := putU32 magicCookie

/-- The key of an IPv6 address. That of an IPv4 address is its start. -/
def xorKey (txnId : TxnId) : Buf := cookieBytes ++ txnId.val

/-- The layout of both address attributes. They differ in their name and in how
port and address are unmasked. -/
def parseAddress (label : String) (unmaskPort : UInt16 → UInt16) (unmask : Buf → Buf)
    (value : Buf) : Except OutOfRange (Except StunError NetAddr) :=
  if value.length < 4 then .ok (.error (.malformed (label ++ " too short")))
  else do
    let reserved ← readU8 value
    let family ← readU8 reserved.2
    let port ← readU16 family.2
    if family.1 = 0x01 then
      if value.length < 8 then .ok (.error (.malformed (label ++ " IPv4 too short")))
      else do
        let bits ← split 4 port.2
        .ok (.ok ⟨.v4 (UInt32.ofNat (ofOctets (unmask bits.1))), unmaskPort port.1⟩)
    else if family.1 = 0x02 then
      if value.length < 20 then .ok (.error (.malformed (label ++ " IPv6 too short")))
      else do
        let bits ← split 16 port.2
        .ok (.ok ⟨.v6 (BitVec.ofNat 128 (ofOctets (unmask bits.1))), unmaskPort port.1⟩)
    else .ok (.error (.malformed ("unknown address family: " ++ hexText 2 family.1.toNat)))

def parseMappedAddress (value : Buf) : Except OutOfRange (Except StunError NetAddr) :=
  parseAddress "MAPPED-ADDRESS" id id value

def xorPort (port : UInt16) : UInt16 := port ^^^ (magicCookie >>> 16).toUInt16

def parseXorMappedAddress (value : Buf) (txnId : TxnId) :
    Except OutOfRange (Except StunError NetAddr) :=
  parseAddress "XOR-MAPPED-ADDRESS" xorPort (mask (xorKey txnId)) value

/-- The addresses found so far. -/
structure Found where
  mapped : Option NetAddr
  xorMapped : Option NetAddr

/-- What an attribute does to the addresses found. -/
def visit (txnId : TxnId) (found : Found) (attrType : UInt16) (value : Buf) :
    Except OutOfRange Found :=
  if attrType = attrXorMappedAddress then do
    let parsed ← parseXorMappedAddress value txnId
    .ok { found with xorMapped := parsed.toOption }
  else if attrType = attrMappedAddress then do
    let parsed ← parseMappedAddress value
    .ok { found with mapped := parsed.toOption }
  else .ok found

def parseBindingResponse (buf : Buf) (expectedTxnId : TxnId) :
    Except OutOfRange (Except StunError NetAddr) :=
  if buf.length < headerLen then
    .ok (.error (.malformed ("response too short: " ++ toString buf.length ++ " bytes")))
  else do
    let msgType ← readU16 buf
    let msgLen ← readU16 msgType.2
    let cookie ← readU32 msgLen.2
    if cookie.1 ≠ magicCookie then
      .ok (.error (.malformed ("bad magic cookie: " ++ hexText 8 cookie.1.toNat)))
    else if msgType.1 = 0x0111 then .ok (.error (.errorResponse 0))
    else if msgType.1 ≠ bindingResponse then
      .ok (.error (.malformed ("unexpected message type: " ++ hexText 4 msgType.1.toNat)))
    else do
      let txnId ← split 12 cookie.2
      if txnId.1 ≠ expectedTxnId.val then .ok (.error .txnMismatch)
      else if buf.length < headerLen + msgLen.1.toNat then
        .ok (.error (.malformed ("message length " ++ toString msgLen.1.toNat ++
          " exceeds buffer (" ++ toString (buf.length - headerLen) ++ " bytes after header)")))
      else do
        let attrs ← split msgLen.1.toNat txnId.2
        let found ← walk (visit expectedTxnId) attrs.1 ⟨none, none⟩
        match found.xorMapped.or found.mapped with
        | some addr => .ok (.ok addr)
        | none => .ok (.error .noMappedAddress)

/-! ## Encoding a response -/

def family : IpAddr → UInt8
  | .v4 _ => 0x01
  | .v6 _ => 0x02

def ipOctets : IpAddr → Buf
  | .v4 bits => octets 4 bits.toNat
  | .v6 bits => octets 16 bits.toNat

def mappedValue (addr : NetAddr) : Buf :=
  0 :: family addr.ip :: (putU16 addr.port ++ ipOctets addr.ip)

def xorMappedValue (txnId : TxnId) (addr : NetAddr) : Buf :=
  0 :: family addr.ip :: (putU16 (xorPort addr.port) ++ mask (xorKey txnId) (ipOctets addr.ip))

/-- A response with these attributes. -/
def encodeResponse (txnId : TxnId) (attrs : Buf) : Buf :=
  putU16 bindingResponse ++ (putU16 (UInt16.ofNat attrs.length) ++
    (putU32 magicCookie ++ (txnId.val ++ attrs)))

/-! ## Address attributes -/

theorem xorKey_length (txnId : TxnId) : (xorKey txnId).length = 16 := by
  rw [xorKey, List.length_append, txnId.property]
  rfl

theorem ipOctets_length_le (ip : IpAddr) : (ipOctets ip).length ≤ 16 := by
  cases ip with
  | v4 bits =>
      rw [ipOctets, octets_length]
      decide
  | v6 bits => rw [ipOctets, octets_length]

theorem xorPort_xorPort (port : UInt16) : xorPort (xorPort port) = port := by
  rw [xorPort, xorPort, UInt16.xor_assoc, UInt16.xor_self, UInt16.xor_zero]

/-- Whatever the value is, an address attribute is parsed without a panic. -/
theorem parseAddress_total (label : String) (unmaskPort : UInt16 → UInt16) (unmask : Buf → Buf)
    (value : Buf) : ∃ r, parseAddress label unmaskPort unmask value = .ok r := by
  rw [parseAddress]
  split
  · exact ⟨_, rfl⟩
  next hlen =>
  obtain ⟨reserved, rest, rfl⟩ := List.exists_cons_of_length_pos (by omega : 0 < value.length)
  rw [List.length_cons] at hlen
  obtain ⟨fam, rest, rfl⟩ := List.exists_cons_of_length_pos (by omega : 0 < rest.length)
  rw [List.length_cons] at hlen
  obtain ⟨port, rest, rfl⟩ := exists_putU16 (by omega : 2 ≤ rest.length)
  have hlength : (reserved :: fam :: (putU16 port ++ rest)).length = 4 + rest.length := by
    rw [List.length_cons, List.length_cons, List.length_append]
    change 2 + rest.length + 1 + 1 = 4 + rest.length
    omega
  simp only [readU8_cons, readU16_put, ok_read_bind, hlength, split]
  split
  · split
    · exact ⟨_, rfl⟩
    next hv4 =>
      rw [if_neg (by omega)]
      exact ⟨_, rfl⟩
  split
  · split
    · exact ⟨_, rfl⟩
    next hv6 =>
      rw [if_neg (by omega)]
      exact ⟨_, rfl⟩
  · exact ⟨_, rfl⟩

/-- An address is read back from its masked bytes. -/
theorem parseAddress_encoded (label : String) (unmaskPort : UInt16 → UInt16)
    {unmask : Buf → Buf} (ip : IpAddr) (port : UInt16) {masked : Buf}
    (hlength : masked.length = (ipOctets ip).length) (hunmask : unmask masked = ipOctets ip) :
    parseAddress label unmaskPort unmask (0 :: family ip :: (putU16 port ++ masked)) =
      .ok (.ok ⟨ip, unmaskPort port⟩) := by
  have hlen : (0 :: family ip :: (putU16 port ++ masked)).length = 4 + masked.length := by
    rw [List.length_cons, List.length_cons, List.length_append]
    change 2 + masked.length + 1 + 1 = 4 + masked.length
    omega
  rw [parseAddress, hlen, if_neg (by omega)]
  simp only [readU8_cons, readU16_put, ok_read_bind]
  cases ip with
  | v4 bits =>
      rw [ipOctets, octets_length] at hlength
      have hsplit : split 4 masked = .ok (masked, []) := by
        have happend := split_append masked []
        rwa [List.append_nil, hlength] at happend
      have hbits : UInt32.ofNat (ofOctets (octets 4 bits.toNat)) = bits := by
        have hlt : bits.toNat < 256 ^ 4 := bits.toNat_lt
        rw [ofOctets_octets, Nat.mod_eq_of_lt hlt, UInt32.ofNat_toNat]
      rw [family, if_pos rfl, if_neg (by omega), hsplit]
      rw [ok_read_bind, hunmask, ipOctets, hbits]
  | v6 bits =>
      rw [ipOctets, octets_length] at hlength
      have hsplit : split 16 masked = .ok (masked, []) := by
        have happend := split_append masked []
        rwa [List.append_nil, hlength] at happend
      have hbits : BitVec.ofNat 128 (ofOctets (octets 16 bits.toNat)) = bits := by
        have hlt : bits.toNat < 256 ^ 16 := bits.isLt
        rw [ofOctets_octets, Nat.mod_eq_of_lt hlt, BitVec.ofNat_toNat, BitVec.setWidth_eq]
      rw [family, if_neg (by decide), if_pos rfl, if_neg (by omega), hsplit]
      rw [ok_read_bind, hunmask, ipOctets, hbits]

theorem parseMappedAddress_encoded (addr : NetAddr) :
    parseMappedAddress (mappedValue addr) = .ok (.ok addr) :=
  parseAddress_encoded "MAPPED-ADDRESS" id addr.ip addr.port rfl rfl

theorem parseXorMappedAddress_encoded (txnId : TxnId) (addr : NetAddr) :
    parseXorMappedAddress (xorMappedValue txnId addr) txnId = .ok (.ok addr) := by
  have hle : (ipOctets addr.ip).length ≤ (xorKey txnId).length := by
    rw [xorKey_length]
    exact ipOctets_length_le addr.ip
  have hparsed := parseAddress_encoded "XOR-MAPPED-ADDRESS" xorPort addr.ip (xorPort addr.port)
    (mask_length hle) (mask_mask hle)
  rw [xorPort_xorPort] at hparsed
  exact hparsed

/-! ## Attributes in a response -/

theorem mappedValue_length (addr : NetAddr) :
    (mappedValue addr).length = 4 + (ipOctets addr.ip).length := by
  rw [mappedValue, List.length_cons, List.length_cons, List.length_append]
  change 2 + _ + 1 + 1 = 4 + _
  omega

theorem xorMappedValue_length (txnId : TxnId) (addr : NetAddr) :
    (xorMappedValue txnId addr).length = 4 + (ipOctets addr.ip).length := by
  have hle : (ipOctets addr.ip).length ≤ (xorKey txnId).length := by
    rw [xorKey_length]
    exact ipOctets_length_le addr.ip
  rw [xorMappedValue, List.length_cons, List.length_cons, List.length_append, mask_length hle]
  change 2 + _ + 1 + 1 = 4 + _
  omega

theorem padLen_ipOctets (ip : IpAddr) : padLen (4 + (ipOctets ip).length) = 0 := by
  cases ip with
  | v4 bits => rw [ipOctets, octets_length, padLen]
  | v6 bits => rw [ipOctets, octets_length, padLen]

/-- An address attribute needs no padding. -/
def addressField (kind : UInt16) (ip : IpAddr) (value : Buf)
    (hlength : value.length = 4 + (ipOctets ip).length) : Field where
  kind
  value
  padding := []
  value_length := by
    have hle := ipOctets_length_le ip
    omega
  padding_length := by rw [hlength, padLen_ipOctets, List.length_nil]

def mappedField (addr : NetAddr) : Field :=
  addressField attrMappedAddress addr.ip (mappedValue addr) (mappedValue_length addr)

def xorMappedField (txnId : TxnId) (addr : NetAddr) : Field :=
  addressField attrXorMappedAddress addr.ip (xorMappedValue txnId addr)
    (xorMappedValue_length txnId addr)

theorem encode_mappedField_length (txnId : TxnId) (addr : NetAddr) :
    (mappedField addr).encode.length = (xorMappedField txnId addr).encode.length := by
  rw [Field.encode, Field.encode, List.length_append, List.length_append, header_length,
    header_length]
  change 4 + (mappedValue addr).length + 0 = 4 + (xorMappedValue txnId addr).length + 0
  rw [mappedValue_length, xorMappedValue_length]

variable {txnId : TxnId} {found : Found} {addr : NetAddr} {value buf : Buf}

theorem visit_xorMapped {parsed : Except StunError NetAddr}
    (h : parseXorMappedAddress value txnId = .ok parsed) :
    visit txnId found attrXorMappedAddress value =
      .ok { found with xorMapped := parsed.toOption } := by
  rw [visit, if_pos rfl, h]
  rfl

theorem visit_mapped {parsed : Except StunError NetAddr}
    (h : parseMappedAddress value = .ok parsed) :
    visit txnId found attrMappedAddress value = .ok { found with mapped := parsed.toOption } := by
  rw [visit, if_neg (by decide), if_pos rfl, h]
  rfl

theorem visit_other {kind : UInt16} (hmapped : kind ≠ attrMappedAddress)
    (hxor : kind ≠ attrXorMappedAddress) : visit txnId found kind value = .ok found := by
  rw [visit, if_neg hxor, if_neg hmapped]

/-- Neither kind of address. -/
def IsOther (f : Field) : Prop := f.kind ≠ attrMappedAddress ∧ f.kind ≠ attrXorMappedAddress

theorem walk_others {fs : List Field} (hothers : ∀ f ∈ fs, IsOther f) (found : Found) (rest : Buf) :
    walk (visit txnId) (encodeAll fs ++ rest) found = walk (visit txnId) rest found := by
  have hvisit : ∀ f ∈ fs, ∀ s, ∃ s', visit txnId s f.kind f.value = .ok s' ∧ s = s' :=
    fun f hf s => ⟨s, visit_other (hothers f hf).1 (hothers f hf).2, rfl⟩
  obtain ⟨found', rfl, hwalk⟩ :=
    walk_encodeAll (fun _ => rfl) (fun _ _ _ h h' => h.trans h') hvisit found rest
  exact hwalk

/-- Among others, one field decides what is found. -/
theorem walk_amid_others {before after : List Field} {field : Field} {found' : Found}
    (hothers : ∀ f ∈ before ++ after, IsOther f)
    (hvisit : visit txnId found field.kind field.value = .ok found') :
    walk (visit txnId) (encodeAll (before ++ field :: after)) found = .ok found' := by
  have hsplit : encodeAll (before ++ field :: after) =
      encodeAll before ++ (field.encode ++ (encodeAll after ++ [])) := by
    rw [encodeAll, List.flatMap_append, List.flatMap_cons, List.append_nil]
    rfl
  rw [hsplit, walk_others (fun f hf => hothers f (List.mem_append_left after hf)),
    walk_encode hvisit, walk_others (fun f hf => hothers f (List.mem_append_right before hf)),
    walk_nil]

/-! ## The whole response -/

theorem encodeResponse_length (txnId : TxnId) (attrs : Buf) :
    (encodeResponse txnId attrs).length = headerLen + attrs.length := by
  rw [encodeResponse, List.length_append, List.length_append, List.length_append, List.length_append,
    txnId.property]
  change 2 + (2 + (4 + (12 + attrs.length))) = 20 + attrs.length
  omega

/-- A response with the header expected is decided by its attributes. -/
theorem parse_encodeResponse {attrs : Buf} (hfits : attrs.length < 65536) (trailing : Buf)
    (hwalk : walk (visit txnId) attrs ⟨none, none⟩ = .ok found) :
    parseBindingResponse (encodeResponse txnId attrs ++ trailing) txnId =
      .ok (match found.xorMapped.or found.mapped with
        | some addr => .ok addr
        | none => .error .noMappedAddress) := by
  have hlen : (encodeResponse txnId attrs ++ trailing).length =
      headerLen + attrs.length + trailing.length := by
    rw [List.length_append, encodeResponse_length]
  have htxn : split 12 (txnId.val ++ (attrs ++ trailing)) = .ok (txnId.val, attrs ++ trailing) := by
    have happend := split_append txnId.val (attrs ++ trailing)
    rwa [txnId.property] at happend
  rw [parseBindingResponse, hlen, if_neg (by omega), encodeResponse]
  simp only [List.append_assoc, readU16_put, readU32_put, ok_read_bind, ne_eq, not_true_eq_false,
    if_false, htxn, toNat_length hfits]
  rw [if_neg (by decide), if_neg (by omega), split_append, ok_read_bind, hwalk, ok_read_bind]
  cases found.xorMapped.or found.mapped <;> rfl

/-- The address stands in an attribute of its kind within the declared length. -/
def Carries (txnId : TxnId) (attrs : Buf) (addr : NetAddr) : Prop :=
  ∃ value, Present attrXorMappedAddress value attrs ∧
      parseXorMappedAddress value txnId = .ok (.ok addr) ∨
    Present attrMappedAddress value attrs ∧ parseMappedAddress value = .ok (.ok addr)

/-- Cookie, type and transaction are those expected, and the address is carried. -/
def Answers (txnId : TxnId) (buf : Buf) (addr : NetAddr) : Prop :=
  ∃ attrs trailing, attrs.length < 65536 ∧ buf = encodeResponse txnId attrs ++ trailing ∧
    Carries txnId attrs addr

/-- The attributes are walked to the end, and what is found they carry. -/
theorem walk_found (txnId : TxnId) (attrs : Buf) :
    ∃ found, walk (visit txnId) attrs ⟨none, none⟩ = .ok found ∧
      (∀ addr, found.xorMapped = some addr → Carries txnId attrs addr) ∧
        ∀ addr, found.mapped = some addr → Carries txnId attrs addr := by
  refine walk_invariant attrs (fun kind value hpresent found hfound => ?_)
    ⟨fun addr h => absurd h.symm (Option.some_ne_none addr),
      fun addr h => absurd h.symm (Option.some_ne_none addr)⟩
  by_cases hxor : kind = attrXorMappedAddress
  · subst hxor
    obtain ⟨parsed, hparsed⟩ : ∃ r, parseXorMappedAddress value txnId = .ok r :=
      parseAddress_total _ _ _ value
    refine ⟨_, visit_xorMapped hparsed, fun addr haddr => ?_, hfound.2⟩
    cases parsed with
    | error e => cases haddr
    | ok a =>
        cases haddr
        exact ⟨value, Or.inl ⟨hpresent, hparsed⟩⟩
  · by_cases hmapped : kind = attrMappedAddress
    · subst hmapped
      obtain ⟨parsed, hparsed⟩ : ∃ r, parseMappedAddress value = .ok r :=
        parseAddress_total _ _ _ value
      refine ⟨_, visit_mapped hparsed, hfound.1, fun addr haddr => ?_⟩
      cases parsed with
      | error e => cases haddr
      | ok a =>
          cases haddr
          exact ⟨value, Or.inr ⟨hpresent, hparsed⟩⟩
    · exact ⟨found, visit_other hmapped hxor, hfound⟩

theorem carries_of_found {attrs : Buf}
    (hxor : ∀ addr, found.xorMapped = some addr → Carries txnId attrs addr)
    (hmapped : ∀ addr, found.mapped = some addr → Carries txnId attrs addr)
    (h : found.xorMapped.or found.mapped = some addr) : Carries txnId attrs addr := by
  rcases Option.or_eq_some_iff.mp h with hfound | ⟨-, hfound⟩
  · exact hxor addr hfound
  · exact hmapped addr hfound

theorem exists_header {buf : Buf} (hlen : headerLen ≤ buf.length) :
    ∃ msgType msgLen cookie rest, 12 ≤ rest.length ∧
      buf = putU16 msgType ++ (putU16 msgLen ++ (putU32 cookie ++ rest)) := by
  have hlong : 20 ≤ buf.length := hlen
  obtain ⟨msgType, rest, rfl⟩ := exists_putU16 (by omega : 2 ≤ buf.length)
  rw [List.length_append] at hlong
  change 20 ≤ 2 + rest.length at hlong
  obtain ⟨msgLen, rest, rfl⟩ := exists_putU16 (by omega : 2 ≤ rest.length)
  rw [List.length_append] at hlong
  change 20 ≤ 2 + (2 + rest.length) at hlong
  obtain ⟨cookie, rest, rfl⟩ := exists_putU32 (by omega : 4 ≤ rest.length)
  rw [List.length_append] at hlong
  change 20 ≤ 2 + (2 + (4 + rest.length)) at hlong
  exact ⟨msgType, msgLen, cookie, rest, by omega, rfl⟩

/-- Whatever the bytes are, parsing ends without a panic, and with an address only
if they are an answer that carries it. -/
theorem parse_total (buf : Buf) (txnId : TxnId) :
    ∃ r, parseBindingResponse buf txnId = .ok r ∧ ∀ addr, r = .ok addr → Answers txnId buf addr := by
  by_cases hlen : buf.length < headerLen
  · rw [parseBindingResponse, if_pos hlen]
    exact ⟨_, rfl, fun addr h => by cases h⟩
  obtain ⟨msgType, msgLen, cookie, rest, hrest, rfl⟩ := exists_header (Nat.le_of_not_lt hlen)
  have htxn : split 12 rest = .ok (rest.take 12, rest.drop 12) := if_neg (Nat.not_lt.mpr hrest)
  rw [parseBindingResponse, if_neg hlen, readU16_put, ok_read_bind, readU16_put, ok_read_bind,
    readU32_put, ok_read_bind, htxn, ok_read_bind]
  split
  · exact ⟨_, rfl, fun addr h => by cases h⟩
  next hcookie =>
  split
  · exact ⟨_, rfl, fun addr h => by cases h⟩
  split
  · exact ⟨_, rfl, fun addr h => by cases h⟩
  next htype =>
  split
  · exact ⟨_, rfl, fun addr h => by cases h⟩
  next hexpected =>
  split
  · exact ⟨_, rfl, fun addr h => by cases h⟩
  next hdeclared =>
  have hinside : msgLen.toNat ≤ (rest.drop 12).length := by
    rw [List.length_append, List.length_append, List.length_append] at hdeclared
    change ¬ 2 + (2 + (4 + rest.length)) < 20 + msgLen.toNat at hdeclared
    rw [List.length_drop]
    omega
  have hattrs : split msgLen.toNat (rest.drop 12) =
      .ok ((rest.drop 12).take msgLen.toNat, (rest.drop 12).drop msgLen.toNat) :=
    if_neg (Nat.not_lt.mpr hinside)
  have hlength : ((rest.drop 12).take msgLen.toNat).length = msgLen.toNat :=
    List.length_take_of_le hinside
  obtain ⟨found, hwalk, hxor, hmapped⟩ := walk_found txnId ((rest.drop 12).take msgLen.toNat)
  rw [hattrs, ok_read_bind, hwalk, ok_read_bind]
  cases hfound : found.xorMapped.or found.mapped with
  | none => exact ⟨_, rfl, fun addr h => by cases h⟩
  | some a =>
      refine ⟨_, rfl, fun addr h => ?_⟩
      cases h
      refine ⟨(rest.drop 12).take msgLen.toNat, (rest.drop 12).drop msgLen.toNat, ?_, ?_,
        carries_of_found hxor hmapped hfound⟩
      · rw [hlength]
        exact msgLen.toNat_lt
      · rw [encodeResponse, hlength, UInt16.ofNat_toNat, ← not_not.mp hcookie, ← not_not.mp htype,
          ← not_not.mp hexpected]
        simp only [List.append_assoc, List.take_append_drop]

/-- A response is parsed to the address it was made with, wherever the attribute
stands among others. Of arbitrary bytes only answers are parsed to an address, and none panic. -/
theorem parseBindingResponse_exact (txnId : TxnId) (addr : NetAddr) (before after : List Field)
    (hothers : ∀ f ∈ before ++ after, IsOther f)
    (hfits : (encodeAll (before ++ xorMappedField txnId addr :: after)).length < 65536) :
    parseBindingResponse
        (encodeResponse txnId (encodeAll (before ++ xorMappedField txnId addr :: after))) txnId =
      .ok (.ok addr) ∧
    parseBindingResponse
        (encodeResponse txnId (encodeAll (before ++ mappedField addr :: after))) txnId =
      .ok (.ok addr) ∧
    ∀ buf txnId, ∃ r, parseBindingResponse buf txnId = .ok r ∧
      ∀ addr, r = .ok addr → Answers txnId buf addr := by
  have hfits' : (encodeAll (before ++ mappedField addr :: after)).length < 65536 := by
    have hlength := encode_mappedField_length txnId addr
    rw [encodeAll, List.flatMap_append, List.flatMap_cons, List.length_append, List.length_append,
      hlength]
    rw [encodeAll, List.flatMap_append, List.flatMap_cons, List.length_append,
      List.length_append] at hfits
    exact hfits
  have hxor : walk (visit txnId) (encodeAll (before ++ xorMappedField txnId addr :: after))
      ⟨none, none⟩ = .ok ⟨none, some addr⟩ :=
    walk_amid_others hothers (visit_xorMapped (parseXorMappedAddress_encoded txnId addr))
  have hmapped : walk (visit txnId) (encodeAll (before ++ mappedField addr :: after))
      ⟨none, none⟩ = .ok ⟨some addr, none⟩ :=
    walk_amid_others hothers (visit_mapped (parseMappedAddress_encoded addr))
  have hparsed := parse_encodeResponse hfits [] hxor
  have hparsed' := parse_encodeResponse hfits' [] hmapped
  rw [List.append_nil] at hparsed hparsed'
  exact ⟨hparsed, hparsed', parse_total⟩

theorem parseBindingResponse_padded :
    let txnId : TxnId := ⟨List.replicate 12 7, rfl⟩
    let addr : NetAddr := ⟨.v4 0x0A010203, 7777⟩
    let software : Field := ⟨0x8022, [104, 101, 108, 108, 111], [0, 0, 0], by decide, rfl⟩
    parseBindingResponse
        (encodeResponse txnId (encodeAll ([software] ++ xorMappedField txnId addr :: []))) txnId =
      .ok (.ok addr) := by
  refine (parseBindingResponse_exact ⟨List.replicate 12 7, rfl⟩ ⟨.v4 0x0A010203, 7777⟩
    [⟨0x8022, [104, 101, 108, 108, 111], [0, 0, 0], by decide, rfl⟩] [] ?_ (by decide +kernel)).1
  intro f hf
  rw [List.append_nil, List.mem_singleton] at hf
  subst hf
  exact ⟨by decide, by decide⟩

end Stun
end Wzp.Client
