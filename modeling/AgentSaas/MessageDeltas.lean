import AgentSaas.Dictionaries
import AgentSaas.SessionMerge

/-! How an increment from the server joins the snapshot that a client has. Of a message only its id
and the id that the client gave it are read. -/

namespace AgentSaas.MessageDeltas
open Dictionaries SessionMerge
open ToolCallRepair (Text)

section Merge

variable {Message : Type} (id : Message → Text) (userClientMessageId : Message → Option Text)

/-- `new Map(messages.map(...))`: of messages with one key the last is found. -/
def indexBy (key : Message → Option Text) (messages : List Message) : Dictionary Text Nat :=
  messages.zipIdx.foldl (fun table entry => (key entry.1).elim table fun name => table.set name entry.2) .empty

/-- A message is looked up by its id, and if that is not there, by what the client called it. -/
def findIndex (indexById userIndexByClientMessageId : Dictionary Text Nat) (message : Message) : Option Nat :=
  (indexById.get (id message)).or ((userClientMessageId message).bind userIndexByClientMessageId.get)

structure Merging (Message : Type) where
  result : List Message
  indexById : Dictionary Text Nat
  userIndexByClientMessageId : Dictionary Text Nat

def Merging.start (result : List Message) : Merging Message :=
  ⟨result, indexBy (some ∘ id) result, indexBy userClientMessageId result⟩

/-- `if (name !== null) table.set(name, index)` -/
def setSome (table : Dictionary Text Nat) (name : Option Text) (index : Nat) : Dictionary Text Nat :=
  name.elim table fun name => table.set name index

def Merging.replace (merging : Merging Message) (message previous : Message) (existingIndex : Nat) : Merging Message where
  result := merging.result.set existingIndex message
  indexById := (merging.indexById.erase (id previous)).set (id message) existingIndex
  userIndexByClientMessageId :=
    let previousClientMsgId := userClientMessageId previous
    let clientMsgId := userClientMessageId message
    setSome (if previousClientMsgId ≠ clientMsgId then previousClientMsgId.elim merging.userIndexByClientMessageId
      merging.userIndexByClientMessageId.erase else merging.userIndexByClientMessageId) clientMsgId existingIndex

def Merging.push (merging : Merging Message) (message : Message) : Merging Message where
  result := merging.result ++ [message]
  indexById := merging.indexById.set (id message) merging.result.length
  userIndexByClientMessageId := setSome merging.userIndexByClientMessageId (userClientMessageId message) merging.result.length

/-- One turn of the loop over the increment. An index that is found is one of the result. -/
def Merging.add (merging : Merging Message) (message : Message) : Merging Message :=
  match findIndex id userClientMessageId merging.indexById merging.userIndexByClientMessageId message with
  | none => merging.push id userClientMessageId message
  | some existingIndex =>
    match merging.result[existingIndex]? with
    | some previous => merging.replace id userClientMessageId message previous existingIndex
    | none => merging

end Merge

end AgentSaas.MessageDeltas
