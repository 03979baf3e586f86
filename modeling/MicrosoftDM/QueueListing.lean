import Mathlib.Data.List.Forall2
import MicrosoftDM.SqlQueue

/-! Pages of a device's commands: the paging package, `List` of the queue in
memory and of the SQL queue, and the filter of mdmprotocol/mdm/queue.go. -/

set_option autoImplicit false

namespace MicrosoftDM

namespace Paging

/-- A limit of zero or less asks for the default size. -/
structure Page where
  cursor : GoString := []
  limit : Int := 0

structure PageResult (α : Type) where
  items : List α
  nextCursor : GoString := []

def defaultPageSize : Int := 100
def maxPageSize : Int := 1000

def Page.size (p : Page) : Nat :=
  if p.limit ≤ 0 then defaultPageSize.toNat
  else if p.limit > maxPageSize then maxPageSize.toNat
  else p.limit.toNat

theorem Page.size_pos (p : Page) : 0 < p.size := by
  unfold size
  split
  · decide
  split
  · decide
  · omega

/-- A cursor is an offset in decimal; `none` is refused. -/
def Page.offset (p : Page) : Option Nat :=
  if p.cursor = [] then some 0
  else
    match atoi p.cursor with
    | some n => if n < 0 then none else some n.toNat
    | none => none

def page {α : Type} (all : List α) (p : Page) : Option (PageResult α) :=
  match p.offset with
  | none => none
  | some n =>
    let offset := min n all.length
    let stop := min (offset+p.size) all.length
    some {
      items := (all.take stop).drop offset
      nextCursor := if stop < all.length then itoa stop else [] }

def pageResult {α : Type} (items : List α) (size offset : Nat) : PageResult α :=
  if items.length > size then { items := items.take size, nextCursor := itoa (offset+size : Nat) }
  else { items := items }

theorem Page.offset_itoa (p : Page) {n : Nat} (h : (n : Int) ≤ maxInt) :
    ({ p with cursor := itoa n } : Page).offset = some n := by
  have hlow : minInt ≤ (n : Int) := by
    simp only [minInt]
    omega
  unfold offset
  rw [if_neg (itoa_ne_nil n),atoi_itoa hlow h]
  simp

/-- A page from an offset within the list on: the next items, and the offset
after them if there are more. -/
theorem page_offset {α : Type} {all : List α} {p : Page} {n : Nat} (hp : p.offset = some n)
    (hn : n ≤ all.length) :
    page all p = some {
      items := (all.drop n).take p.size
      nextCursor := if n+p.size < all.length then itoa (n+p.size : Nat) else [] } := by
  unfold page
  rw [hp]
  dsimp only
  rw [Nat.min_eq_left hn]
  by_cases h : n+p.size < all.length
  · rw [Nat.min_eq_left h.le,if_pos h,List.drop_take]
    simp
  · rw [Nat.min_eq_right (Nat.le_of_not_lt h),if_neg h,if_neg (lt_irrefl _),List.take_length,
      List.take_of_length_le (by rw [List.length_drop]; omega)]

theorem page_alike {α β : Type} {R : α → β → Prop} {as : List α} {bs : List β} {p : Page} {offset : Nat}
    (hp : p.offset = some offset)
    (h : List.Forall₂ R ((as.drop offset).take (p.size+1)) bs) :
    ∃ r, page as p = some r ∧ List.Forall₂ R r.items (pageResult bs p.size offset).items ∧
      r.nextCursor = (pageResult bs p.size offset).nextCursor := by
  have hlen := h.length_eq
  rw [List.length_take,List.length_drop] at hlen
  by_cases ho : offset ≤ as.length
  · refine ⟨_,page_offset hp ho,?_⟩
    unfold pageResult
    by_cases hmore : offset+p.size < as.length
    · rw [if_pos (show bs.length > p.size by omega),if_pos hmore]
      have htake := List.forall₂_take p.size h
      rw [List.take_take,Nat.min_eq_left (Nat.le_succ _)] at htake
      exact ⟨htake,rfl⟩
    rw [if_neg (show ¬bs.length > p.size by omega),if_neg hmore]
    rw [List.take_of_length_le (by rw [List.length_drop]; omega)] at h
    rw [List.take_of_length_le (by rw [List.length_drop]; omega)]
    exact ⟨h,rfl⟩
  · have hnil : bs = [] := List.length_eq_zero_iff.mp (by omega)
    subst hnil
    unfold page pageResult
    rw [hp]
    dsimp only
    rw [Nat.min_eq_right (Nat.le_of_not_le ho),Nat.min_eq_right (Nat.le_add_right _ _),List.take_length,
      List.drop_length,if_neg (lt_irrefl _)]
    exact ⟨_,rfl,by rw [if_neg (by simp)]; exact .nil,by rw [if_neg (by simp)]⟩

end Paging

namespace Mdm
open Paging (Page PageResult)

/-- `Query`; empty fields filter nothing. -/
structure Query where
  states : List State := []
  internal : Option Bool := none
  scope : Option Scope := none

/-- `matches`. -/
def Query.keeps (query : Query) (state : State) (internal : Bool) (scope : Scope) : Bool :=
  (query.internal.all fun b => internal == b) && (query.scope.all fun s => scope == s) &&
  (query.states.isEmpty || query.states.contains state)

/-- `List`; `none` is an invalid cursor. -/
def Queue.list (q : Queue) (dev : GoString) (query : Query) (p : Page) :
    Option (PageResult QueuedCommand) :=
  Paging.page ((q.commands dev).filter fun qc =>
    query.keeps qc.state qc.command.internal qc.command.scope) p

end Mdm

namespace Sqlstore
open Mdm (Query QueuedCommand)
open Paging (Page PageResult)

def Queue.listRows (q : Queue) (dev : GoString) (query : Query) (size offset : Nat) : List Row :=
  ((bySeq (q.rows.filter fun r => r.deviceID == dev && query.keeps r.state r.internal r.scope)).drop
    offset).take (size+1)

def Queue.list (codec : Codec) (q : Queue) (dev : GoString) (query : Query) (p : Page) :
    Except QueueError (Option (PageResult QueuedCommand)) :=
  match p.offset with
  | none => .ok none
  | some offset =>
    match (q.listRows dev query p.size offset).mapM codec.scanCommand with
    | .error e => .error e
    | .ok items => .ok (some (Paging.pageResult items p.size offset))

end Sqlstore

end MicrosoftDM
