import MicrosoftDM.Session

/-!
Who a request comes from: TLS evidence (mdmprotocol/mdm/transport.go), the
identity of a device and its SyncHdr credential (auth.go, basic.go,
syncml/auth.go), and the nonce records of state/state.go. MD5 and PBKDF2 are
parameters.
-/

set_option autoImplicit false

namespace MicrosoftDM.Mdm
open MicrosoftDM.Syncml (Cred)

abbrev Bytes := List UInt8

structure Crypto where
  md5 : Bytes → Bytes
  /-- PBKDF2-HMAC-SHA256 with 600000 iterations and a 32-byte key: password, salt. -/
  pbkdf2 : Bytes → Bytes → Bytes

structure Certificate where
  raw : Bytes
  deriving DecidableEq

/-- A list of certificate pointers, which may be nil. -/
abbrev Chain := List (Option Certificate)

structure Transport where
  userAgentOrigin : GoString := []
  certificates : Chain := []
  verifiedChains : List Chain := []
  deriving DecidableEq

def Chain.leaf : Chain → Option Certificate
  | some c :: _ => some c
  | _ => none

def Transport.verifiedPeerChains (t : Transport) : List Chain :=
  match Chain.leaf t.certificates with
  | none => []
  | some peer =>
    if peer.raw = [] then []
    else t.verifiedChains.filter fun chain => chain.leaf = some peer

def verifiedPeerChains : Option Transport → List Chain
  | none => []
  | some t => t.verifiedPeerChains

structure Identity where
  deviceID : GoString
  enrollmentKey : GoString
  certificateThumbprint : GoString := []
  authType : AuthType
  credentialHash : Bytes := []
  deriving DecidableEq

def base64Char (n : Nat) : UInt8 :=
  if n < 26 then (65+n).toUInt8
  else if n < 52 then (71+n).toUInt8
  else if n < 62 then (n-4).toUInt8
  else if n = 62 then 43
  else 47

def base64Pad : UInt8 := 61

/-- `base64.StdEncoding.EncodeToString`. -/
def base64Encode : Bytes → GoString
  | [] => []
  | [a] => [base64Char (a.toNat/4),base64Char (a.toNat%4*16),base64Pad,base64Pad]
  | [a,b] =>
    [base64Char (a.toNat/4),base64Char (a.toNat%4*16+b.toNat/16),base64Char (b.toNat%16*4),
      base64Pad]
  | a :: b :: c :: rest =>
    base64Char (a.toNat/4) :: base64Char (a.toNat%4*16+b.toNat/16) ::
    base64Char (b.toNat%16*4+c.toNat/64) :: base64Char (c.toNat%64) :: base64Encode rest

def base64Value (b : UInt8) : Option Nat :=
  let n := b.toNat
  if 65 ≤ n ∧ n ≤ 90 then some (n-65)
  else if 97 ≤ n ∧ n ≤ 122 then some (n-71)
  else if 48 ≤ n ∧ n ≤ 57 then some (n+4)
  else if n = 43 then some 62
  else if n = 47 then some 63
  else none

def base64Quads : GoString → Option Bytes
  | [] => some []
  | [a,b,c,d] =>
    match base64Value a,base64Value b with
    | some a,some b =>
      if d = base64Pad then
        if c = base64Pad then some [(a*4+b/16).toUInt8]
        else
          match base64Value c with
          | some c => some [(a*4+b/16).toUInt8,(b%16*16+c/4).toUInt8]
          | none => none
      else
        match base64Value c,base64Value d with
        | some c,some d => some [(a*4+b/16).toUInt8,(b%16*16+c/4).toUInt8,(c%4*64+d).toUInt8]
        | _,_ => none
    | _,_ => none
  | a :: b :: c :: d :: rest =>
    match base64Value a,base64Value b,base64Value c,base64Value d,base64Quads rest with
    | some a,some b,some c,some d,some out =>
      some ((a*4+b/16).toUInt8 :: (b%16*16+c/4).toUInt8 :: (c%4*64+d).toUInt8 :: out)
    | _,_,_,_,_ => none
  | _ => none

def base64Decode (s : GoString) : Option Bytes := base64Quads (s.filter fun b => b ≠ 10 ∧ b ≠ 13)

def colon : UInt8 := 58

def md5DigestFromHash (cr : Crypto) (credHash nonce : Bytes) : GoString :=
  base64Encode (cr.md5 (base64Encode credHash ++ colon :: nonce))

def verifyMD5 (cr : Crypto) (received : GoString) (credHash nonce : Bytes) : Bool :=
  received == md5DigestFromHash cr credHash nonce

def parseBasicCredential (data : GoString) : Option (GoString × GoString) :=
  match base64Decode (trimSpace data) with
  | none => none
  | some raw =>
    if colon ∈ raw then some (raw.takeWhile (· ≠ colon),(raw.dropWhile (· ≠ colon)).tail) else none

def verifyBasicCredential (cr : Crypto) (verifier : Bytes) (username password : GoString) : Bool :=
  decide (verifier.length = 49) && decide (verifier.head? = some 1) &&
  decide (colon ∉ username) &&
  cr.pbkdf2 (username ++ colon :: password) ((verifier.drop 1).take 16) == verifier.drop 17

def verifyCredential (cr : Crypto) (id : Identity) (cred : Cred) (nonce : Bytes) : Bool :=
  match id.authType with
  | .digest =>
    decide (cred.metinf.type = Syncml.authMD5) && decide (nonce ≠ []) &&
    decide (id.credentialHash ≠ []) &&
    verifyMD5 cr (trimSpace cred.data) id.credentialHash nonce
  | .basic =>
    decide (cred.metinf.type = Syncml.authBasic) &&
    match parseBasicCredential cred.data with
    | some (u,p) => verifyBasicCredential cr id.credentialHash u p
    | none => false
  | .certificate | .other _ => false

def nonceKeyStart : GoString := "mdm/nonce/"

/-- `nonceKey`: a rune that is no printable ASCII character becomes one underscore. -/
def nonceKey (deviceID : GoString) : GoString :=
  nonceKeyStart ++ (runes deviceID).flatMap fun r => if r.1 ≤ 32 ∨ r.1 > 126 then [95] else r.2

def validKey (k : GoString) : Bool :=
  decide (k ≠ []) && decide (k.length ≤ 255) && k.all fun c => 33 ≤ c.toNat && c.toNat ≤ 126

structure NonceRecord where
  value : Bytes
  expiresAt : Time
  deriving DecidableEq

def NonceRecord.current (r : NonceRecord) (now : Time) : Bool := r.expiresAt = 0 || r.expiresAt > now

end MicrosoftDM.Mdm
