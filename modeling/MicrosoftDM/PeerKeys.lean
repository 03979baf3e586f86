import MicrosoftDM.GoText

/-!
The client a request is counted for (`PeerKey` of ratelimit/http.go). Parsing
and printing of addresses are those of net and net/netip and stay open.
-/

set_option autoImplicit false

namespace MicrosoftDM.Ratelimit

/-- What is taken from net and net/netip; `none` is an error. -/
structure Netip (Addr Net : Type) where
  splitHostPort : GoString → Option GoString
  parseAddr : GoString → Option Addr
  unmap : Addr → Addr
  contains : Net → Addr → Bool
  string : Addr → GoString

/-- Of a request the socket peer and the lines of X-Forwarded-For. -/
structure PeerRequest where
  remoteAddr : GoString
  forwardedFor : List GoString

def comma : UInt8 := 44

section Walk
variable {Addr Net : Type} (ip : Netip Addr Net) (trusted : List Net)

def isTrusted (a : Addr) : Bool := trusted.any fun p => ip.contains p a

def Netip.entry (s : GoString) : Option Addr := (ip.parseAddr (trimSpace s)).map ip.unmap

/-- The loop over the entries, the nearest proxy first; `none` is a malformed entry. -/
def walkChain (peer : Addr) : List GoString → Option Addr
  | [] => some peer
  | s :: rest =>
    match ip.entry s with
    | none => none
    | some next => if isTrusted ip trusted next then walkChain next rest else some next

/-- `PeerKey`. `Header.Get` gives the first line. -/
def peerKey (r : PeerRequest) : GoString :=
  match ip.parseAddr ((ip.splitHostPort r.remoteAddr).getD r.remoteAddr) with
  | none => "unknown"
  | some a =>
    let peer := ip.unmap a
    if isTrusted ip trusted peer = false then ip.string peer
    else
      let chain := splitAt comma (r.forwardedFor.head?.getD [])
      if chain.length > 32 then ip.string peer
      else ip.string ((walkChain ip trusted peer chain.reverse).getD peer)

def PeerRequest.Trusted (r : PeerRequest) : Prop :=
  ∃ a, ip.parseAddr ((ip.splitHostPort r.remoteAddr).getD r.remoteAddr) = some a ∧
    isTrusted ip trusted (ip.unmap a) = true

def PeerRequest.Lists (r : PeerRequest) (addrs : List Addr) : Prop :=
  (splitAt comma ([comma].intercalate r.forwardedFor)).map ip.entry = addrs.map some

/-- The proxy is trusted, and its lines, the first of them `line`, list the addresses. -/
structure PeerRequest.Forwards (r : PeerRequest) (line : GoString) (addrs : List Addr) : Prop where
  trusted : r.Trusted ip trusted
  first : ∃ lines, r.forwardedFor = line :: lines
  lists : r.Lists ip addrs
  short : addrs.length ≤ 32

def lastUntrusted (addrs : List Addr) : Option Addr := addrs.reverse.find? fun a => !isTrusted ip trusted a

/-- The address a chain stands for: the rightmost that is not trusted, or the leftmost. -/
def origin (addrs : List Addr) : Option Addr := (lastUntrusted ip trusted addrs).or addrs.head?

/-- The lines after the first name no other untrusted address. -/
def LaterAgree (line : GoString) (addrs : List Addr) : Prop :=
  lastUntrusted ip trusted (addrs.drop (splitAt comma line).length) = none ∨
    lastUntrusted ip trusted (addrs.take (splitAt comma line).length) =
      lastUntrusted ip trusted (addrs.drop (splitAt comma line).length)

end Walk

section Facts
variable {Addr Net : Type} {ip : Netip Addr Net} {trusted : List Net}

theorem walkChain_eq {entries : List GoString} {addrs : List Addr}
    (h : entries.map ip.entry = addrs.map some) (peer : Addr) :
    walkChain ip trusted peer entries =
      some (((addrs.find? fun a => !isTrusted ip trusted a).or addrs.getLast?).getD peer) := by
  induction entries generalizing addrs peer with
  | nil =>
    cases addrs with
    | nil => rfl
    | cons a rest => cases h
  | cons s entries ih =>
    cases addrs with
    | nil => cases h
    | cons a rest =>
      obtain ⟨ha,hrest⟩ := List.cons.inj h
      simp only [walkChain,ha]
      cases ht : isTrusted ip trusted a with
      | false => simp [ht]
      | true =>
        rw [if_pos rfl,ih hrest a,List.find?_cons_of_neg (by simp [ht])]
        cases rest.find? fun a => !isTrusted ip trusted a <;> simp [List.getLast?_cons]

theorem peerKey_first {r : PeerRequest} {line : GoString} {lines : List GoString} {addrs : List Addr}
    (hr : r.Trusted ip trusted) (hline : r.forwardedFor = line :: lines)
    (hlen : (splitAt comma line).length ≤ 32) (h : (splitAt comma line).map ip.entry = addrs.map some) :
    some (peerKey ip trusted r) = (origin ip trusted addrs).map ip.string := by
  obtain ⟨a,ha,ht⟩ := hr
  have hrev : (splitAt comma line).reverse.map ip.entry = addrs.reverse.map some := by
    rw [List.map_reverse,h,List.map_reverse]
  have hne : addrs ≠ [] := by
    rintro rfl
    exact splitAt_ne_nil comma line (List.map_eq_nil_iff.mp h)
  have hhead : r.forwardedFor.head?.getD [] = line := by rw [hline]; rfl
  unfold peerKey
  rw [ha]
  dsimp only
  rw [ht,if_neg Bool.noConfusion,hhead,if_neg (by omega),walkChain_eq hrev]
  unfold origin lastUntrusted
  obtain ⟨x,rest,rfl⟩ := List.exists_cons_of_ne_nil hne
  cases (x :: rest).reverse.find? fun a => !isTrusted ip trusted a <;> simp

theorem splitAt_joined (line : GoString) (lines : List GoString) :
    ∃ later, splitAt comma ([comma].intercalate (line :: lines)) = splitAt comma line ++ later := by
  cases lines with
  | nil => exact ⟨[],by simp⟩
  | cons next lines =>
    refine ⟨splitAt comma ([comma].intercalate (next :: lines)),?_⟩
    rw [List.intercalate_cons_cons,List.append_assoc]
    exact splitAt_append comma line _

theorem lastUntrusted_some {addrs : List Addr} {a : Addr} (h : lastUntrusted ip trusted addrs = some a) :
    isTrusted ip trusted a = false := by
  simpa using List.find?_some h

theorem lastUntrusted_none {addrs : List Addr} (h : lastUntrusted ip trusted addrs = none) :
    ∀ a ∈ addrs, isTrusted ip trusted a = true := by
  intro a ha
  simpa using List.find?_eq_none.mp h a (List.mem_reverse.mpr ha)

theorem lastUntrusted_append (xs ys : List Addr) : lastUntrusted ip trusted (xs ++ ys) =
    (lastUntrusted ip trusted ys).or (lastUntrusted ip trusted xs) := by
  simp [lastUntrusted,List.find?_append]

/-- The origin of a chain is that of its front part if and only if the rest names no
other untrusted address. -/
theorem origin_append_iff {xs ys : List Addr} (hne : xs ≠ []) :
    origin ip trusted xs = origin ip trusted (xs ++ ys) ↔
      lastUntrusted ip trusted ys = none ∨
        lastUntrusted ip trusted xs = lastUntrusted ip trusted ys := by
  unfold origin
  rw [lastUntrusted_append,List.head?_append_of_ne_nil xs hne]
  cases hy : lastUntrusted ip trusted ys with
  | none => simp
  | some u =>
    cases hx : lastUntrusted ip trusted xs with
    | some v => simp
    | none =>
      obtain ⟨x,rest,rfl⟩ := List.exists_cons_of_ne_nil hne
      have htrust := lastUntrusted_none hx x List.mem_cons_self
      have hu := lastUntrusted_some hy
      simp only [Option.none_or,List.head?_cons,Option.some_or,Option.some.injEq,reduceCtorEq,or_self,
        iff_false]
      rintro rfl
      rw [htrust] at hu
      cases hu

theorem peerKey_eq_origin_iff (hinj : Function.Injective ip.string) {r : PeerRequest} {line : GoString}
    {addrs : List Addr} (h : r.Forwards ip trusted line addrs) :
    some (peerKey ip trusted r) = (origin ip trusted addrs).map ip.string ↔
      LaterAgree ip trusted line addrs := by
  obtain ⟨hr,⟨lines,hlines⟩,hlist,hlen⟩ := h
  obtain ⟨later,hlater⟩ := splitAt_joined line lines
  have hmap := hlist
  unfold PeerRequest.Lists at hmap
  rw [hlines,hlater] at hmap
  have hcount := congrArg List.length hmap
  simp only [List.length_map,List.length_append] at hcount
  have hfirst : (splitAt comma line).map ip.entry = (addrs.take (splitAt comma line).length).map some := by
    rw [List.map_take,← hmap,List.map_append,List.take_left' (List.length_map _)]
  have hne : addrs.take (splitAt comma line).length ≠ [] := by
    intro h
    rw [h] at hfirst
    exact splitAt_ne_nil comma line (List.map_eq_nil_iff.mp hfirst)
  unfold LaterAgree
  rw [peerKey_first hr hlines (by omega) hfirst,(Option.map_injective hinj).eq_iff,
    ← origin_append_iff hne,List.take_append_drop]

theorem origin_eq {a : Addr} {right : List Addr} (ha : isTrusted ip trusted a = false)
    (hright : ∀ x ∈ right, isTrusted ip trusted x = true) (left : List Addr) :
    origin ip trusted (left ++ a :: right) = some a := by
  have hlast : lastUntrusted ip trusted (a :: right) = some a := by
    have hnone : (right.reverse.find? fun x => !isTrusted ip trusted x) = none :=
      List.find?_eq_none.mpr fun x hx => by simp [hright x (List.mem_reverse.mp hx)]
    simp [lastUntrusted,List.find?_append,hnone,ha]
  rw [origin,lastUntrusted_append,hlast]
  rfl

/-- `PeerKey` gives the origin of the whole chain if and only if the lines after the first name no
other untrusted address. Two such requests that differ only to the left of it have one key. -/
theorem peerKey_origin_iff (hinj : Function.Injective ip.string) {r : PeerRequest} {line : GoString}
    {addrs : List Addr} (h : r.Forwards ip trusted line addrs) :
    (some (peerKey ip trusted r) = (origin ip trusted addrs).map ip.string ↔
      LaterAgree ip trusted line addrs) ∧
    (LaterAgree ip trusted line addrs → ∀ r' line' left left' a right, addrs = left ++ a :: right →
      r'.Forwards ip trusted line' (left' ++ a :: right) →
      LaterAgree ip trusted line' (left' ++ a :: right) → isTrusted ip trusted a = false →
      (∀ x ∈ right, isTrusted ip trusted x = true) → peerKey ip trusted r' = peerKey ip trusted r) := by
  refine ⟨peerKey_eq_origin_iff hinj h,?_⟩
  rintro hlater r' line' left left' a right rfl h' hlater' ha hright
  have hkey := (peerKey_eq_origin_iff hinj h).mpr hlater
  have hkey' := (peerKey_eq_origin_iff hinj h').mpr hlater'
  rw [origin_eq ha hright] at hkey hkey'
  exact Option.some.inj (hkey'.trans hkey.symm)

end Facts

namespace Sample

def octet (s : GoString) : Bool :=
  match atoi s with
  | some n => decide (0 ≤ n) && decide (n ≤ 255) && itoa n == s
  | none => false

def ipv4 : Netip GoString GoString where
  splitHostPort s := some (s.takeWhile (· ≠ 58))
  parseAddr s := if (splitAt 46 s).length = 4 ∧ (splitAt 46 s).all octet = true then some s else none
  unmap := id
  contains net a := net.isPrefixOf a
  string := id

def proxies : List GoString := [utf8 "10."]

def oneLine (line : GoString) : PeerRequest := ⟨"10.0.0.1:443",[line]⟩

def spoofed (line : GoString) : PeerRequest := ⟨"10.0.0.1:443",[line,utf8 "198.51.100.7"]⟩

end Sample

theorem peerKey_origin_one_line :
    some (peerKey Sample.ipv4 Sample.proxies (Sample.oneLine "198.51.100.7, 10.0.0.2")) =
      (origin Sample.ipv4 Sample.proxies [utf8 "198.51.100.7",utf8 "10.0.0.2"]).map Sample.ipv4.string ∧
    peerKey Sample.ipv4 Sample.proxies (Sample.oneLine "203.0.113.9, 198.51.100.7, 10.0.0.2") =
      peerKey Sample.ipv4 Sample.proxies (Sample.oneLine "198.51.100.7, 10.0.0.2") := by
  have hpeer : (Sample.oneLine []).Trusted Sample.ipv4 Sample.proxies :=
    ⟨"10.0.0.1",by decide +kernel,by decide +kernel⟩
  have hshort : (Sample.oneLine "198.51.100.7, 10.0.0.2").Forwards Sample.ipv4 Sample.proxies
      "198.51.100.7, 10.0.0.2" [utf8 "198.51.100.7",utf8 "10.0.0.2"] :=
    ⟨hpeer,⟨[],rfl⟩,by unfold PeerRequest.Lists; decide +kernel,by decide⟩
  have hlong : (Sample.oneLine "203.0.113.9, 198.51.100.7, 10.0.0.2").Forwards Sample.ipv4 Sample.proxies
      "203.0.113.9, 198.51.100.7, 10.0.0.2" [utf8 "203.0.113.9",utf8 "198.51.100.7",utf8 "10.0.0.2"] :=
    ⟨hpeer,⟨[],rfl⟩,by unfold PeerRequest.Lists; decide +kernel,by decide⟩
  obtain ⟨hkey,hsame⟩ := peerKey_origin_iff (fun _ _ h => h) hshort
  have hlater : LaterAgree Sample.ipv4 Sample.proxies "198.51.100.7, 10.0.0.2"
      [utf8 "198.51.100.7",utf8 "10.0.0.2"] := .inl (by decide +kernel)
  exact ⟨hkey.mpr hlater,hsame hlater _ _ [] [utf8 "203.0.113.9"] (utf8 "198.51.100.7") [utf8 "10.0.0.2"] rfl
    hlong (.inl (by decide +kernel)) (by decide +kernel) (by decide +kernel)⟩

/-- Two requests that differ only to the left of the address the proxy saw get what the client has
written. -/
theorem peerKey_spoofed : (Sample.spoofed "203.0.113.9").Trusted Sample.ipv4 Sample.proxies ∧
    (Sample.spoofed "203.0.113.9").Lists Sample.ipv4 [utf8 "203.0.113.9",utf8 "198.51.100.7"] ∧
    origin Sample.ipv4 Sample.proxies [utf8 "203.0.113.9",utf8 "198.51.100.7"] =
      some (utf8 "198.51.100.7") ∧
    peerKey Sample.ipv4 Sample.proxies (Sample.spoofed "203.0.113.9") = utf8 "203.0.113.9" ∧
    peerKey Sample.ipv4 Sample.proxies (Sample.spoofed "203.0.113.10") = utf8 "203.0.113.10" :=
  ⟨⟨"10.0.0.1",by decide +kernel,by decide +kernel⟩,by unfold PeerRequest.Lists; decide +kernel,
    by decide +kernel,by decide +kernel,by decide +kernel⟩

end MicrosoftDM.Ratelimit
