import MicrosoftDM.SessionEngine

/-!
The collaborators of the engine as one state: the in-memory queue, sessions
and nonces, and an environment that answers everything else (clock,
authenticator, random bytes, map order) and decides which calls fail.
-/

set_option autoImplicit false

namespace MicrosoftDM.Mdm
open Effect
open MicrosoftDM.Syncml (Message)

structure World where
  queue : Queue := .empty
  sessions : MemorySessions := ∅
  nonces : GoMap NonceRecord := ∅
  nextAddr : Nat := 0

/-- Answers of the environment to the n-th call. The clock may run in any
way, and a map may be ranged over in any order. -/
structure Env where
  clock : Nat → Time
  nonce : Nat → Bytes
  lookup : Nat → GoString → Option Identity
  trust : Nat → Identity → List Chain → Bool
  fails : Nat → Bool
  order : Nat → List GoString → List GoString
  order_perm : ∀ n keys, (order n keys).Perm keys

structure Machine where
  world : World
  tick : Nat := 0

def Machine.step (m : Machine) (w : World) : Machine := ⟨w,m.tick+1⟩

/-- A call that can fail fails without an effect. -/
def Env.fallible {α : Type} (env : Env) (m : Machine) (r : Except StoreError α × World) :
    Except StoreError α × Machine :=
  if env.fails m.tick then (.error .unavailable,m.step m.world) else (r.1,m.step r.2)

theorem Env.fallible_ok {α : Type} {env : Env} {m m' : Machine} {r : Except StoreError α × World}
    {a : α} (h : env.fallible m r = (.ok a,m')) : r.1 = .ok a ∧ m' = m.step r.2 := by
  unfold fallible at h
  split at h
  · cases h
  · simp only [Prod.mk.injEq] at h
    exact ⟨h.1,h.2.symm⟩

theorem Env.fallible_cases {α : Type} (env : Env) (m : Machine) (r : Except StoreError α × World) :
    env.fallible m r = (.error .unavailable,m.step m.world) ∨ env.fallible m r = (r.1,m.step r.2) := by
  unfold fallible
  split
  · exact .inl rfl
  · exact .inr rfl

theorem Env.fallible_world {α : Type} (env : Env) (m : Machine) (r : Except StoreError α × World) :
    (env.fallible m r).2.world = m.world ∨ (env.fallible m r).2.world = r.2 :=
  (env.fallible_cases m r).imp (fun h => by rw [h]; rfl) fun h => by rw [h]; rfl

def World.setQueue {α : Type} (w : World) (r : Except StoreError α × Queue) :
    Except StoreError α × World := (r.1,{ w with queue := r.2 })

def World.putNonce (w : World) (key : GoString) (value : Bytes) (expiresAt : Time) :
    Except StoreError Unit × World :=
  if validKey key then
    (.ok (),{ w with nonces := w.nonces.insert key { value := value, expiresAt := expiresAt } })
  else (.error .unavailable,w)

theorem World.putNonce_frame (w : World) (key : GoString) (value : Bytes) (expiresAt : Time) :
    ∃ n, (w.putNonce key value expiresAt).2 = { w with nonces := n } := by
  unfold putNonce
  split
  · exact ⟨_,rfl⟩
  · exact ⟨w.nonces,rfl⟩

def World.getNonce (w : World) (key : GoString) : Except StoreError NonceRecord :=
  match w.nonces.lookup key with
  | some r => .ok r
  | none => .error .notFound

def World.getSession (w : World) (key : GoString) (now : Time) : Except StoreError Session × World :=
  let r := MemorySessions.getSession w.sessions key now
  (r.1,{ w with sessions := r.2 })

def Env.handler (env : Env) : Handler Op Ans Machine
  | .lookup dev, m => (env.lookup m.tick dev,m.step m.world)
  | .trustCertificate id chains, m => (env.trust m.tick id chains,m.step m.world)
  | .now, m => (env.clock m.tick,m.step m.world)
  | .newNonce, m => (env.nonce m.tick,m.step m.world)
  | .newMaps, m => (m.world.nextAddr,m.step { m.world with nextAddr := m.world.nextAddr+1 })
  | .rangeOrder keys, m => (env.order m.tick keys,m.step m.world)
  | .getSession key, m => env.fallible m (m.world.getSession key (env.clock m.tick))
  | .putSession sess, m =>
    env.fallible m (.ok (),{ m.world with sessions := MemorySessions.putSession m.world.sessions sess })
  | .deleteSession key, m =>
    env.fallible m
      (.ok (),{ m.world with sessions := MemorySessions.deleteSession m.world.sessions key })
  | .abandon sess popped, m =>
    ((),m.step { m.world with sessions := MemorySessions.abandon m.world.sessions sess popped })
  | .nonceGet key, m => env.fallible m (m.world.getNonce key,m.world)
  | .nonceUpdate key value ttl, m =>
    env.fallible m (m.world.putNonce key value (env.clock m.tick+ttl))
  | .enqueue dev cmd time, m => env.fallible m (m.world.setQueue (m.world.queue.enqueue dev cmd time))
  | .deliverable dev limit, m => env.fallible m (.ok (m.world.queue.deliverable dev limit),m.world)
  | .markSent dev ds, m => env.fallible m (m.world.setQueue (m.world.queue.markSent dev ds))
  | .storeResult dev id r, m =>
    env.fallible m (m.world.setQueue (m.world.queue.storeResult dev id r))
  | .hook _, m => env.fallible m (.ok (),m.world)

/-- One call of `Handle`, alone on the world. -/
def serve (cfg : Config) (env : Env) (t : Option Transport) (req : Message) (w : World) :
    Handled × World :=
  let r := (handle cfg t req).run env.handler { world := w }
  (r.1,r.2.world)

/- A service with one device, on which concrete runs are evaluated. -/
namespace Sample

def cfg : Config where
  serverURL := "https://mdm.example/"
  crypto := { md5 := id, pbkdf2 := fun password _ => password }

def identity : Identity where
  deviceID := "dev"
  enrollmentKey := "enrollment"
  authType := .certificate

def env : Env where
  clock _ := 1
  nonce _ := [1]
  lookup _ _ := some identity
  trust _ _ _ := true
  fails _ := false
  order _ keys := keys
  order_perm _ _ := .refl _

def transport : Transport where
  certificates := [some ⟨[1]⟩]
  verifiedChains := [[some ⟨[1]⟩]]

def key : GoString := "dev/1"

def request (msgID : GoString) (commands : List Syncml.Command) : Message where
  xmlns := Syncml.namespaceSyncML12
  header :=
    { verDTD := Syncml.verDTD, verProto := Syncml.verProto, sessionID := "1", msgID := msgID,
      target := { locURI := "https://mdm.example/" }, source := { locURI := "dev" } }
  body := { commands := commands, final := true }

def packageOne : Message :=
  request "1"
    [.alert { cmdID := "1", data := "1201" },
      .leaf .replace {
        cmdID := "2", items := [{ source := "./DevInfo/DevId", data := some { value := "dev" } }] }]

def status (cmdID msgRef cmdRef cmd code : GoString) : Syncml.Command :=
  .status { cmdID := cmdID, msgRef := msgRef, cmdRef := cmdRef, cmd := cmd, data := { value := code } }

def replace (id uri value : GoString) : Command where
  id := id
  scope := .device
  body := .leaf .replace { items := [{ target := uri, data := some { value := value } }] }

def world (cmds : List Command) : World where
  queue := cmds.foldl (fun q cmd => (q.enqueue "dev" cmd 0).2) .empty

end Sample

end MicrosoftDM.Mdm
