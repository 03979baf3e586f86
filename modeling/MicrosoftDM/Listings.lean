import MicrosoftDM.SqlEnrollment
import MicrosoftDM.QueueCopies

/-!
Listing page by page, with the cursor of each answer in the next request: the
enrollments and certificates in memory (storage/inmem/inmem.go) and in the SQL store
(server/sqlstore/enrollment.go and certificate.go), and the commands of both queues.
-/

set_option autoImplicit false

namespace MicrosoftDM

namespace Paging
variable {α : Type}

/-- The SQL side of a listing: `LIMIT size+1 OFFSET offset` of the rows, scanned and cut to the page. -/
def fetch {ρ ε : Type} (scan : ρ → Except ε α) (rows : List ρ) (p : Page) :
    Except ε (Option (PageResult α)) :=
  match p.offset with
  | none => .ok none
  | some offset =>
    match ((rows.drop offset).take (p.size+1)).mapM scan with
    | .error e => .error e
    | .ok items => .ok (some (pageResult items p.size offset))

end Paging

namespace Storage
open Paging (Page PageResult)

/-- `EnrollmentQuery`; empty fields filter nothing. -/
structure EnrollmentQuery where
  state : GoString := []
  enrollmentType : GoString := []
  upn : GoString := []
  deviceID : GoString := []

def EnrollmentQuery.keeps (q : EnrollmentQuery) (state : State) (enrollmentType upn deviceID : GoString) :
    Bool :=
  (q.state = [] ∨ State.ofText q.state = some state) ∧
  (q.enrollmentType = [] ∨ enrollmentType = q.enrollmentType) ∧ (q.upn = [] ∨ upn = q.upn) ∧
  (q.deviceID = [] ∨ deviceID = q.deviceID)

def Tables.listed (t : Tables) (q : EnrollmentQuery) : List Enrollment :=
  ((t.enrollments.entries.map Sigma.snd).filter fun e =>
    q.keeps e.state e.enrollmentType e.upn e.deviceID).insertionSort Enrollment.before

/-- `List`; `none` is an invalid cursor. -/
def Tables.list (t : Tables) (q : EnrollmentQuery) (p : Page) : Option (PageResult Enrollment) :=
  Paging.page (t.listed q) p

/-- `CertificateQuery`; empty fields filter nothing. -/
structure CertificateQuery where
  deviceID : GoString := []
  revoked : Option Bool := none
  expiresBefore : Time := 0

def CertificateQuery.keeps (q : CertificateQuery) (c : Certificate) : Bool :=
  (q.deviceID = [] ∨ c.deviceID = q.deviceID) ∧ q.revoked.all (c.revoked == ·) ∧
  (q.expiresBefore = 0 ∨ c.notAfter < q.expiresBefore)

def Certificate.before (a b : Certificate) : Prop :=
  Sqlstore.listed (a.notBefore,a.serial) (b.notBefore,b.serial)

instance (a b : Certificate) : Decidable (a.before b) := inferInstanceAs (Decidable (_ ∨ _ ∧ _))

instance : Std.Total Certificate.before where
  total a b := Sqlstore.listed_total (a.notBefore,a.serial) (b.notBefore,b.serial)

instance : IsTrans Certificate Certificate.before where
  trans _ _ _ := Sqlstore.listed_trans

end Storage

namespace Sqlstore
open Paging (Page PageResult)
open Storage (EnrollmentQuery Enrollment Certificate CertificateQuery)

def listedRows (db : EnrollmentTable) (q : EnrollmentQuery) : List ((_ : GoString) × EnrollmentRow) :=
  (({ db := db } : Sql.Session EnrollmentRows).rows fun _ r =>
    q.keeps r.state r.enrollmentType r.upn r.deviceID).insertionSort listedBefore

def list (codec : ContextCodec) (db : EnrollmentTable) (q : EnrollmentQuery) (p : Page) :
    Except EnrollmentError (Option (PageResult Enrollment)) :=
  Paging.fetch (fun row => codec.scanEnrollment row.1 row.2) (listedRows db q) p

structure CertificateRow where
  serial : GoString
  thumbprint : GoString
  subject : GoString
  deviceID : GoString
  notBefore : Int
  notAfter : Int
  raw : Mdm.Bytes
  revoked : Int
  revokedAt : Int

def CertificateRow.kept (q : CertificateQuery) (r : CertificateRow) : Bool :=
  (q.deviceID = [] ∨ r.deviceID = q.deviceID) ∧ q.revoked.all (fun b => r.revoked == if b then 1 else 0) ∧
  (q.expiresBefore = 0 ∨ r.notAfter < nanos q.expiresBefore)

instance (a b : CertificateRow) : Decidable (listed (a.notBefore,a.serial) (b.notBefore,b.serial)) :=
  inferInstanceAs (Decidable (_ ∨ _ ∧ _))

def Queue.listed (q : Queue) (dev : GoString) (query : Mdm.Query) : List Row :=
  bySeq (q.rows.filter fun r => r.deviceID == dev && query.keeps r.state r.internal r.scope)

end Sqlstore

namespace Paging
open Storage (Tables EnrollmentQuery Enrollment Certificate CertificateQuery)

namespace Sample
open Sqlstore (Codec Queue)

def table : Sqlstore.EnrollmentTable := (Sqlstore.runSql Sqlstore.Sample.contexts ∅ Sqlstore.Sample.calls).2

def command (id : GoString) : Mdm.Command where
  id := id
  scope := .device
  body := .leaf .replace { items := [{ target := "./Vendor/Policy", data := some { value := "1" } }] }

def codec : Codec := ⟨fun _ => some (command []).body,fun _ => none,fun _ => none,.matched⟩

def queue : Queue :=
  [("d",command "b"),("e",command "c"),("d",command "a")].foldl
    (fun q x => (q.enqueue x.1 x.2 Sqlstore.Sample.after).2) .empty

end Sample

set_option maxRecDepth 4000

end Paging

end MicrosoftDM
