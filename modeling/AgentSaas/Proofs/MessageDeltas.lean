import AgentSaas.MessageDeltas
import AgentSaas.Splitting
import Mathlib.Data.List.Forall2
import Mathlib.Data.List.Induction

/-! An increment is merged by ids. Messages that share an id, or what the client called them, are
one message; the increment has to say of no two messages at once that they are it. -/

namespace AgentSaas.Proofs.MessageDeltas
open AgentSaas.MessageDeltas Dictionaries
open ToolCallRepair (Text units)
open Splitting (split_concat)

section Tables

variable {Message : Type} {key : Message → Option Text} {table after : Dictionary Text Nat} {list : List Message} {message previous : Message}

def Sound (key : Message → Option Text) (table : Dictionary Text Nat) (list : List Message) : Prop :=
  ∀ name index, table.get name = some index → list[index]?.bind key = some name

/-- And what is there is found. -/
def Exact (key : Message → Option Text) (table : Dictionary Text Nat) (list : List Message) : Prop :=
  ∀ name index, table.get name = some index ↔ list[index]?.bind key = some name

theorem Exact.sound (exact : Exact key table list) : Sound key table list := fun name index => (exact name index).mp

theorem Exact.nodup (exact : Exact key table list) : (list.filterMap key).Nodup := by
  rw [List.Nodup, List.pairwise_filterMap, List.pairwise_iff_getElem]
  intro first last inside bound before name own _ other
  rintro rfl
  have one := (exact name first).mpr (by rw [List.getElem?_eq_getElem inside]; exact own)
  have two := (exact name last).mpr (by rw [List.getElem?_eq_getElem bound]; exact other)
  rw [one] at two
  exact Nat.ne_of_lt before (Option.some.inj two)

theorem get_setSome (name : Option Text) (index : Nat) (other : Text) :
    (setSome table name index).get other = if name = some other then some index else table.get other := by
  cases name with
  | none => rfl
  | some name =>
    change (table.set name index).get other = _
    rw [Dictionary.get_set]
    simp only [Option.some.injEq, eq_comm]

theorem bind_push (index : Nat) : (list ++ [message])[index]?.bind key =
    if index = list.length then key message else list[index]?.bind key := by
  split
  next last => rw [last, List.getElem?_concat_length]; rfl
  next other =>
    by_cases inside : index < list.length
    · rw [List.getElem?_append_left inside]
    · rw [List.getElem?_eq_none (by simp; omega), List.getElem?_eq_none (by omega)]

theorem bind_set {index : Nat} (here : list[index]? = some previous) (other : Nat) : (list.set index message)[other]?.bind key =
    if other = index then key message else list[other]?.bind key := by
  have inside : index < list.length := (List.getElem?_eq_some_iff.mp here).1
  split
  next same => rw [same, List.getElem?_set_self inside]; rfl
  next apart => rw [List.getElem?_set_ne (Ne.symm apart)]

theorem Sound.push (sound : Sound key table list) : Sound key (setSome table (key message) list.length) (list ++ [message]) := by
  intro name index found
  rw [get_setSome] at found
  rw [bind_push]
  split at found
  next own =>
    cases found
    rw [if_pos rfl, own]
  next other =>
    have before := sound name index found
    rw [if_neg, before]
    rintro rfl
    rw [List.getElem?_eq_none (Nat.le_refl _)] at before
    cases before

theorem Exact.push (exact : Exact key table list) (fresh : ∀ name, key message = some name → table.get name = none) :
    Exact key (setSome table (key message) list.length) (list ++ [message]) := by
  intro name index
  refine ⟨exact.sound.push name index, fun found => ?_⟩
  rw [bind_push] at found
  rw [get_setSome]
  split at found
  next last => rw [if_pos found, last]
  next other =>
    have before := (exact name index).mpr found
    rw [if_neg, before]
    intro own
    rw [fresh name own] at before
    cases before

def Replaced (key : Message → Option Text) (table after : Dictionary Text Nat) (message previous : Message) (index : Nat) : Prop :=
  ∀ name, after.get name = if key message = some name then some index else if key previous = some name then none else table.get name

theorem Sound.replace {index : Nat} (sound : Sound key table list) (replaced : Replaced key table after message previous index)
    (here : list[index]? = some previous) : Sound key after (list.set index message) := by
  intro name other found
  rw [replaced] at found
  rw [bind_set here]
  split at found
  next own =>
    cases found
    rw [if_pos rfl, own]
  next =>
    split at found
    · cases found
    next gone =>
      have before := sound name other found
      rw [if_neg, before]
      rintro rfl
      rw [here] at before
      exact gone before

theorem Exact.replace {index : Nat} (exact : Exact key table list) (replaced : Replaced key table after message previous index)
    (here : list[index]? = some previous) (fresh : ∀ name other, key message = some name → table.get name = some other → other = index) :
    Exact key after (list.set index message) := by
  intro name other
  refine ⟨exact.sound.replace replaced here name other, fun found => ?_⟩
  rw [bind_set here] at found
  rw [replaced]
  split at found
  next same => rw [if_pos found, same]
  next apart =>
    have before := (exact name other).mpr found
    rw [if_neg, if_neg, before]
    · intro gone
      have twin := (exact name index).mpr (by rw [here]; exact gone)
      rw [before] at twin
      exact apart (Option.some.inj twin)
    · exact fun own => apart (fresh name other own before)

end Tables

section Merge

variable {Message : Type} {id : Message → Text} {client : Message → Option Text}

def Shares (id : Message → Text) (client : Message → Option Text) (left right : Message) : Prop :=
  id left = id right ∨ ∃ name, client left = some name ∧ client right = some name

/-- No message of the increment has the id of one message and the client's name for another. -/
def Agrees (id : Message → Text) (client : Message → Option Text) (base delta : List Message) : Prop :=
  ∀ message ∈ delta, ∀ first ∈ base ++ delta, ∀ second ∈ base ++ delta, id first = id message →
    (∃ name, client second = some name ∧ client message = some name) → Shares id client first second

/-- A message that was in the increment before. -/
def Repeats (id : Message → Text) (client : Message → Option Text) (delta : List Message) (message : Message) : Prop :=
  ∃ front back, delta = front ++ message :: back ∧ ∃ earlier ∈ front, Shares id client earlier message

variable {base delta done : List Message} {merging : Merging Message} {message previous : Message} {overlap : Nat}

structure Invariant (id : Message → Text) (client : Message → Option Text) (base : List Message) (overlap : Nat) (done : List Message)
    (merging : Merging Message) : Prop where
  ids : Exact (some ∘ id) merging.indexById merging.result
  clients : Sound client merging.userIndexByClientMessageId merging.result
  exact : Agrees id client base done → Exact client merging.userIndexByClientMessageId merging.result
  members : ∀ message ∈ merging.result, message ∈ base ++ done
  long : overlap ≤ merging.result.length
  kept : ∀ index < overlap, ∃ message, merging.result[index]? = some message ∧ (base[index]? = some message ∨ message ∈ done)
  untouched : ∀ index < overlap, ∀ old, base[index]? = some old → (∀ message ∈ done, ¬ Shares id client old message) →
    merging.result[index]? = some old
  present : ∀ front message back, done = front ++ message :: back → (∀ later ∈ back, ¬ Shares id client message later) →
    message ∈ merging.result
  ordered : ∃ firsts, firsts.Sublist done ∧
    List.Forall₂ (fun first last => last = first ∨ Repeats id client done last) firsts (merging.result.drop overlap)

theorem Agrees.mono {front back : List Message} (agrees : Agrees id client base (front ++ back)) : Agrees id client base front := by
  have wider : base ++ front ⊆ base ++ (front ++ back) := by
    rw [← List.append_assoc]
    exact List.subset_append_left _ _
  exact fun message member first one second two => agrees message (List.mem_append_left _ member) first (wider one) second (wider two)

theorem Repeats.push {last : Message} (repeated : Repeats id client done last) (message : Message) : Repeats id client (done ++ [message]) last := by
  obtain ⟨front, back, rfl, earlier⟩ := repeated
  exact ⟨front, back ++ [message], by rw [List.append_assoc, List.cons_append], earlier⟩

theorem Repeats.mem {last : Message} (repeated : Repeats id client done last) : last ∈ done := by
  obtain ⟨front, back, rfl, _⟩ := repeated
  exact List.mem_append_right _ List.mem_cons_self

inductive Lookup (id : Message → Text) (client : Message → Option Text) (merging : Merging Message) (message : Message) : Prop
  | missing (ids : merging.indexById.get (id message) = none)
    (clients : ∀ name, client message = some name → merging.userIndexByClientMessageId.get name = none)
    (added : merging.add id client message = merging.push id client message)
  | found (index : Nat) (previous : Message) (here : merging.result[index]? = some previous) (shares : Shares id client previous message)
    (ids : ∀ other, merging.indexById.get (id message) = some other → other = index)
    (clients : merging.indexById.get (id message) = none →
      ∃ name, client message = some name ∧ merging.userIndexByClientMessageId.get name = some index)
    (added : merging.add id client message = merging.replace id client message previous index)

theorem lookup (ids : Sound (some ∘ id) merging.indexById merging.result) (clients : Sound client merging.userIndexByClientMessageId merging.result)
    (message : Message) : Lookup id client merging message := by
  cases byId : merging.indexById.get (id message) with
  | some index =>
    obtain ⟨previous, here, same⟩ := Option.bind_eq_some_iff.mp (ids _ _ byId)
    refine .found index previous here (.inl (Option.some.inj same)) (fun other again => ?_) (fun none => ?_) ?_
    · rw [byId] at again
      exact (Option.some.inj again).symm
    · rw [byId] at none
      cases none
    · rw [Merging.add, findIndex, byId]
      simp only [Option.some_or, here]
  | none =>
    cases byClient : (client message).bind merging.userIndexByClientMessageId.get with
    | none =>
      refine .missing byId (fun name own => ?_) ?_
      · rwa [own] at byClient
      · rw [Merging.add, findIndex, byId, byClient]
        rfl
    | some index =>
      obtain ⟨name, own, listed⟩ := Option.bind_eq_some_iff.mp byClient
      obtain ⟨previous, here, same⟩ := Option.bind_eq_some_iff.mp (clients _ _ listed)
      refine .found index previous here (.inr ⟨name, same, own⟩) (fun other again => ?_) (fun _ => ⟨name, own, listed⟩) ?_
      · rw [byId] at again
        cases again
      · rw [Merging.add, findIndex, byId, byClient]
        simp only [Option.none_or, here]

/-- Where the increment ends with a message, what held of those before it holds of them still. -/
theorem Invariant.push (invariant : Invariant id client base overlap done merging) (ids : merging.indexById.get (id message) = none)
    (clients : ∀ name, client message = some name → merging.userIndexByClientMessageId.get name = none) :
    Invariant id client base overlap (done ++ [message]) (merging.push id client message) where
  ids := by
    have pushed : Exact (some ∘ id) (setSome merging.indexById (some (id message)) merging.result.length) (merging.result ++ [message]) :=
      invariant.ids.push fun name own => Option.some.inj own ▸ ids
    exact pushed
  clients := invariant.clients.push
  exact agrees := (invariant.exact agrees.mono).push clients
  members other inside := by
    rw [← List.append_assoc]
    exact List.mem_append.mpr ((List.mem_append.mp inside).imp_left (invariant.members other))
  long := by
    have long := invariant.long
    rw [Merging.push, List.length_append]
    omega
  kept index inside := by
    obtain ⟨old, here, origin⟩ := invariant.kept index inside
    exact ⟨old, List.getElem?_append_left (List.getElem?_eq_some_iff.mp here).1 ▸ here, origin.imp_right (List.mem_append_left _)⟩
  untouched index inside old here apart := by
    have before := invariant.untouched index inside old here fun other member => apart other (List.mem_append_left _ member)
    exact List.getElem?_append_left (List.getElem?_eq_some_iff.mp before).1 ▸ before
  present front older back parts apart := by
    obtain ⟨-, rfl, -⟩ | ⟨rest, rfl, before⟩ := split_concat parts
    · exact List.mem_append_right _ List.mem_cons_self
    · exact List.mem_append_left _ (invariant.present front older rest before fun later member => apart later (List.mem_append_left _ member))
  ordered := by
    obtain ⟨firsts, sub, each⟩ := invariant.ordered
    refine ⟨firsts ++ [message], sub.append_right _, ?_⟩
    change List.Forall₂ _ _ (List.drop overlap (merging.result ++ [message]))
    rw [List.drop_append_of_le_length invariant.long]
    refine List.rel_append (each.imp fun first last same => same.imp_right fun repeated => repeated.push message) ?_
    exact .cons (.inl rfl) .nil

theorem forall₂_set {α β : Type} {before after : α → β → Prop} {firsts : List α} {lasts : List β} {value : β}
    (each : List.Forall₂ before firsts lasts) (weaker : ∀ first last, before first last → after first last) (own : ∀ first, after first value)
    (index : Nat) : List.Forall₂ after firsts (lasts.set index value) := by
  induction each generalizing index with
  | nil => exact .nil
  | cons related rest ih =>
    cases index with
    | zero => exact .cons (own _) (rest.imp weaker)
    | succ index => exact .cons (weaker _ _ related) (ih index)

theorem mem_of_forall₂ {α β : Type} {related : α → β → Prop} {firsts : List α} {lasts : List β} (each : List.Forall₂ related firsts lasts)
    {last : β} (member : last ∈ lasts) : ∃ first ∈ firsts, related first last := by
  induction each with
  | nil => cases member
  | cons own _ ih =>
    obtain rfl | later := List.mem_cons.mp member
    · exact ⟨_, List.mem_cons_self, own⟩
    · obtain ⟨first, inside, same⟩ := ih later
      exact ⟨first, .tail _ inside, same⟩

theorem replaced_ids (index : Nat) :
    Replaced (some ∘ id) merging.indexById (merging.replace id client message previous index).indexById message previous index := by
  intro name
  change ((merging.indexById.erase (id previous)).set (id message) index).get name = _
  rw [Dictionary.get_set]
  simp only [Function.comp_apply, Option.some.injEq]
  by_cases own : name = id message
  · rw [if_pos own, if_pos own.symm]
  · rw [if_neg own, if_neg (Ne.symm own)]
    split
    next gone => rw [gone, Dictionary.get_erase_self]
    next other => exact Dictionary.get_erase_of_ne (Ne.symm other)

theorem replaced_clients (index : Nat) : Replaced client merging.userIndexByClientMessageId
    (merging.replace id client message previous index).userIndexByClientMessageId message previous index := by
  intro name
  change (setSome _ (client message) index).get name = _
  rw [get_setSome]
  split
  · rfl
  next other =>
    by_cases same : client previous = client message
    · rw [if_neg (not_not.mpr same), if_neg (same ▸ other)]
    · rw [if_pos same]
      cases gone : client previous with
      | none => rfl
      | some older =>
        change (merging.userIndexByClientMessageId.erase older).get name = _
        simp only [Option.some.injEq]
        split
        next here => rw [here, Dictionary.get_erase_self]
        next apart => exact Dictionary.get_erase_of_ne (Ne.symm apart)

theorem Invariant.replace {index : Nat} (invariant : Invariant id client base overlap done merging) (here : merging.result[index]? = some previous)
    (shares : Shares id client previous message) (ids : ∀ other, merging.indexById.get (id message) = some other → other = index)
    (clients : merging.indexById.get (id message) = none →
      ∃ name, client message = some name ∧ merging.userIndexByClientMessageId.get name = some index) :
    Invariant id client base overlap (done ++ [message]) (merging.replace id client message previous index) where
  ids := invariant.ids.replace (replaced_ids index) here fun name other own found => ids other (Option.some.inj own ▸ found)
  clients := invariant.clients.replace (replaced_clients index) here
  exact agrees := by
    have exact := invariant.exact agrees.mono
    refine exact.replace (replaced_clients index) here fun name other own found => ?_
    cases byId : merging.indexById.get (id message) with
    | none =>
      obtain ⟨again, same, listed⟩ := clients byId
      rw [own] at same
      cases same
      rw [found] at listed
      exact Option.some.inj listed
    | some position =>
      obtain rfl := ids position byId
      obtain ⟨second, there, named⟩ := Option.bind_eq_some_iff.mp (exact.sound name other found)
      have known (message : Message) (position : Nat) (listed : merging.result[position]? = some message) {last : Message} :
          message ∈ base ++ (done ++ [last]) := by
        rw [← List.append_assoc]
        exact List.mem_append_left _ (invariant.members message (List.mem_of_getElem? listed))
      have same : id previous = id message := by
        have listed := (invariant.ids _ _).mp byId
        rw [here] at listed
        exact Option.some.inj listed
      obtain twin | ⟨common, left, right⟩ := agrees message (List.mem_append_right _ List.mem_cons_self) previous (known _ _ here) second
        (known _ _ there) same ⟨name, named, own⟩
      · have listed := (invariant.ids (id message) other).mpr (by rw [there]; exact congrArg some (twin.symm.trans same))
        rw [byId] at listed
        exact (Option.some.inj listed).symm
      · rw [named] at right
        cases right
        have listed := (exact name position).mpr (by rw [here]; exact left)
        rw [found] at listed
        exact Option.some.inj listed
  members other inside := by
    rw [← List.append_assoc]
    obtain old | rfl := List.mem_or_eq_of_mem_set inside
    · exact List.mem_append_left _ (invariant.members other old)
    · exact List.mem_append_right _ List.mem_cons_self
  long := by
    change overlap ≤ (merging.result.set index message).length
    rw [List.length_set]
    exact invariant.long
  kept position inside := by
    have occupied := (List.getElem?_eq_some_iff.mp here).1
    change ∃ kept, (merging.result.set index message)[position]? = some kept ∧ _
    by_cases same : index = position
    · subst same
      exact ⟨message, List.getElem?_set_self occupied, .inr (List.mem_append_right _ List.mem_cons_self)⟩
    · obtain ⟨old, there, origin⟩ := invariant.kept position inside
      exact ⟨old, by rw [List.getElem?_set_ne same, there], origin.imp_right (List.mem_append_left _)⟩
  untouched position inside old there apart := by
    have before := invariant.untouched position inside old there fun other member => apart other (List.mem_append_left _ member)
    change (merging.result.set index message)[position]? = some old
    rw [List.getElem?_set_ne, before]
    rintro rfl
    rw [here] at before
    cases before
    exact apart message (List.mem_append_right _ List.mem_cons_self) shares
  present front older back parts apart := by
    have occupied := (List.getElem?_eq_some_iff.mp here).1
    change older ∈ merging.result.set index message
    obtain ⟨-, rfl, -⟩ | ⟨rest, rfl, before⟩ := split_concat parts
    · exact List.mem_of_getElem? (List.getElem?_set_self occupied)
    · have listed := invariant.present front older rest before fun later member => apart later (List.mem_append_left _ member)
      obtain ⟨position, there⟩ := List.mem_iff_getElem?.mp listed
      refine List.mem_of_getElem? (i := position) ?_
      rw [List.getElem?_set_ne, there]
      rintro rfl
      rw [here] at there
      cases there
      exact apart message (List.mem_append_right _ List.mem_cons_self) shares
  ordered := by
    obtain ⟨firsts, sub, each⟩ := invariant.ordered
    refine ⟨firsts, sub.trans (List.sublist_append_left ..), ?_⟩
    change List.Forall₂ _ _ ((merging.result.set index message).drop overlap)
    rw [List.drop_set]
    have weaker : ∀ first last, last = first ∨ Repeats id client done last → last = first ∨ Repeats id client (done ++ [message]) last :=
      fun first last same => same.imp_right fun repeated => repeated.push message
    split
    · exact each.imp weaker
    next inside =>
      have member : previous ∈ merging.result.drop overlap := by
        refine List.mem_of_getElem? (i := index - overlap) ?_
        rw [List.getElem?_drop, Nat.add_sub_cancel' (by omega), here]
      have known : previous ∈ done := by
        obtain ⟨first, listed, rfl | repeated⟩ := mem_of_forall₂ each member
        · exact sub.subset listed
        · exact repeated.mem
      exact forall₂_set each weaker (fun _ => .inr ⟨done, [], rfl, previous, known, shares⟩) (index - overlap)

theorem Invariant.add (invariant : Invariant id client base overlap done merging) (message : Message) :
    Invariant id client base overlap (done ++ [message]) (merging.add id client message) := by
  cases lookup invariant.ids.sound invariant.clients message with
  | missing ids clients added => exact added ▸ invariant.push ids clients
  | found index previous here shares ids clients added => exact added ▸ invariant.replace here shares ids clients

/-- The place of a message in the base, by its id or else by the client's name. -/
def position (id : Message → Text) (client : Message → Option Text) (base : List Message) (message : Message) : Option Nat :=
  (base.findIdx? (id · = id message)).or ((client message).bind fun name => base.findIdx? (client · = some name))

def overlapStart (id : Message → Text) (client : Message → Option Text) (base delta : List Message) : Nat :=
  (delta.findSome? (position id client base)).getD base.length

/-- What is merged: before the overlap the base, each message where it was and as the increment has it
last; behind it the increment, each message where it came first. -/
structure Merged (id : Message → Text) (client : Message → Option Text) (base delta merged : List Message) : Prop where
  ids : (merged.map id).Nodup
  clients : Agrees id client base delta → (merged.filterMap client).Nodup
  present : ∀ front message back, delta = front ++ message :: back → (∀ later ∈ back, ¬ Shares id client message later) → message ∈ merged
  kept : ∀ index < overlapStart id client base delta, ∃ message, merged[index]? = some message ∧
    (base[index]? = some message ∨ message ∈ delta)
  untouched : ∀ index < overlapStart id client base delta, ∀ old, base[index]? = some old →
    (∀ message ∈ delta, ¬ Shares id client old message) → merged[index]? = some old
  ordered : ∃ firsts, firsts.Sublist delta ∧ List.Forall₂ (fun first last => last = first ∨ Repeats id client delta last) firsts
    (merged.drop (overlapStart id client base delta))

end Merge

/-! Messages of a user, one of them under two ids, and an increment that confuses two. -/

open SessionMerge

def sent (id name : String) : MessageItem := .user (units id) (units "hello") none (some (units name))

end AgentSaas.Proofs.MessageDeltas
