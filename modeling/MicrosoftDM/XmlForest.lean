import MicrosoftDM.XmlTokens

set_option autoImplicit false

namespace MicrosoftDM.Xml

variable {data rest : GoString} {cs : Charset} {raw : RawToken} {d d' : Decoder} {tok : Token} {t : NameChars}

/-- Text that does not start with `<` is not empty. -/
theorem text_suffix_cons {b : UInt8} {s : GoString} (hb : b ≠ 60)
    (h : (text t none false).run (b :: s) = .ok (data,rest)) : rest <:+ s := by
  unfold text at h
  obtain ⟨x,mid,hl,h⟩ := Reader.bind_ok h
  change textLoop t none false 0 0 0 [] (b :: s) = .ok (x,mid) at hl
  split at h
  · cases h
  cases h
  simp only [textLoop] at hl
  rw [if_neg (by simp),if_neg (by simp [hb]),if_neg (by simp)] at hl
  split at hl
  · split at hl
    · cases hl
    · exact textLoop_suffix hl
  · exact textLoop_suffix hl

theorem rawToken_suffix {b : UInt8} {s : GoString} (h : rawToken t b s = .ok (raw,rest)) : rest <:+ s := by
  unfold rawToken at h
  split at h
  · exact (markup t).suffix h
  rename_i hb
  cases hx : (text t none false).run (b :: s) with
  | error e =>
    rw [hx] at h
    cases h
  | ok x =>
    rw [hx] at h
    cases h
    exact text_suffix_cons hb hx

theorem Charset.weight_suffix (cs : Charset) {s : GoString} (h : rest <:+ s) :
    cs.weight rest ≤ cs.weight s := by
  obtain ⟨front,rfl⟩ := h
  induction front with
  | nil => exact Nat.le_refl _
  | cons b front ih => exact Nat.le_trans ih (Nat.le_of_lt (cs.weight_cons b _))

/-- What is left to read, counting the end of an empty element. -/
def Decoder.cost (cs : Charset) (d : Decoder) : Nat :=
  2*cs.weight d.input+if d.toClose.isSome then 1 else 0

theorem popElement_input {name : Name}
    (h : d.popElement name = .ok (tok,d')) : d'.input = d.input ∧ d'.toClose = d.toClose := by
  unfold Decoder.popElement at h
  split at h
  · cases h
  split at h
  · cases h
  split at h
  · cases h
  · cases h
    exact ⟨rfl,rfl⟩

theorem declared_weight {target input : GoString}
    (h : declared cs target data rest = .ok input) : cs.weight input ≤ cs.weight rest := by
  unfold declared at h
  split at h
  · dsimp only at h
    split at h
    · cases h
    split at h
    · exact cs.weight_change h
    · cases h
      exact Nat.le_refl _
  · cases h
    exact Nat.le_refl _

theorem cost_lt (hc : d.toClose = none) (h : cs.weight d'.input < cs.weight d.input) :
    d'.cost cs < d.cost cs := by
  simp only [Decoder.cost,hc]
  cases d'.toClose <;> simp <;> omega

theorem token_cost
    (h : d.token t cs = .ok (tok,d')) : d'.cost cs < d.cost cs := by
  unfold Decoder.token at h
  split at h
  · rename_i name hc
    obtain ⟨hi,hn⟩ := popElement_input h
    unfold Decoder.cost
    rw [hi,hn,hc]
    simp
  rename_i hc
  split at h
  · cases h
  rename_i b s hi
  have hlt : ∀ {raw : RawToken} {rest : GoString}, rawToken t b s = .ok (raw,rest) →
      cs.weight rest < cs.weight d.input := by
    intro raw rest hr
    rw [hi]
    exact Nat.lt_of_le_of_lt (cs.weight_suffix (rawToken_suffix hr)) (cs.weight_cons b s)
  split at h
  · cases h
  · rename_i hr
    cases h
    exact cost_lt hc (hlt hr)
  · rename_i hr
    refine cost_lt hc ?_
    rw [(popElement_input h).1]
    exact hlt hr
  · rename_i hr
    cases h
    exact cost_lt hc (hlt hr)
  · rename_i hr
    cases h
    exact cost_lt hc (hlt hr)
  · rename_i hr
    split at h
    · cases h
    rename_i hd
    cases h
    exact cost_lt hc (Nat.lt_of_le_of_lt (declared_weight hd) (hlt hr))

/-- A token with the offsets before and after it. -/
structure Event where
  token : Token
  before : Nat
  after : Nat
  deriving DecidableEq

/-- How a stream ends: the error, `eof` at the end of a document, and where. -/
structure Ending where
  error : XmlError
  offset : Nat
  deriving DecidableEq

def streamFuel (t : NameChars) (cs : Charset) : Nat → Decoder → List Event × Ending
  | 0, d => ([],⟨unexpectedEOF,d.offset⟩)
  | fuel+1, d =>
    match d.token t cs with
    | .error e => ([],⟨e,d.offset⟩)
    | .ok (tok,d') =>
      let r := streamFuel t cs fuel d'
      (⟨tok,d.offset,d'.offset⟩ :: r.1,r.2)

def Decoder.stream (t : NameChars) (cs : Charset) (d : Decoder) : List Event × Ending :=
  streamFuel t cs (d.cost cs+1) d

theorem streamFuel_eq {t : NameChars} {cs : Charset} {f g : Nat} {d : Decoder}
    (hf : d.cost cs < f) (hg : d.cost cs < g) : streamFuel t cs f d = streamFuel t cs g d := by
  induction f generalizing g d with
  | zero => omega
  | succ f ih =>
    cases g with
    | zero => omega
    | succ g =>
      unfold streamFuel
      cases h : d.token t cs with
      | error e => rfl
      | ok r =>
        have hlt := token_cost h
        dsimp only
        rw [@ih g r.2 (by omega) (by omega)]

theorem stream_error {e : XmlError}
    (h : d.token t cs = .error e) : d.stream t cs = ([],⟨e,d.offset⟩) := by
  unfold Decoder.stream streamFuel
  rw [h]

theorem stream_token
    (h : d.token t cs = .ok (tok,d')) :
    d.stream t cs = (⟨tok,d.offset,d'.offset⟩ :: (d'.stream t cs).1,(d'.stream t cs).2) := by
  have hlt := token_cost h
  unfold Decoder.stream
  rw [streamFuel,h]
  dsimp only
  rw [@streamFuel_eq t cs _ (d'.cost cs+1) d' (by omega) (by omega)]

/-- The tokens up to the end tag of the enclosing element, each child element
with what it holds. `closed` is that end tag, or the end of the document, with
the offset before it; `broken` an error in its place. `start` is the offset
after the start tag. -/
inductive Forest where
  | closed (offset : Nat)
  | broken (e : XmlError)
  | chars (data : GoString) (rest : Forest)
  | other (rest : Forest)
  | element (name : Name) (attrs : List Attr) (start : Nat) (kids rest : Forest)

/-- The forest at the front of a stream and those of the enclosing elements. -/
def plant (e : Ending) : List Event → Forest × List Forest
  | [] => (if e.error = .eof then .closed e.offset else .broken e.error,[])
  | ev :: evs =>
    let f := plant e evs
    match ev.token with
    | .chars data => (.chars data f.1,f.2)
    | .other => (.other f.1,f.2)
    | .finish _ => (.closed ev.before,f.1 :: f.2)
    | .start name attrs =>
      match f.2 with
      | rest :: outer => (.element name attrs ev.after f.1 rest,outer)
      | [] => (.element name attrs ev.after f.1 (.broken e.error),[])

def document (t : NameChars) (cs : Charset) (input : GoString) : Forest :=
  let s := Decoder.stream t cs { input := input }
  (plant s.2 s.1).1

end MicrosoftDM.Xml
