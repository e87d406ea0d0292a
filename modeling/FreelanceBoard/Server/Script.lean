import FreelanceBoard.Server.Store

/-! A search server that answers from a script. Every method has a queue of replies, and a plain
reply of its own for when that is empty; what was asked is recorded. -/
namespace FreelanceBoard

abbrev ScriptedReply := Except ClientFailure Value

/-- What a program did, other than report lines. -/
inductive ServerEvent where
  | request (r : Request)
  | pause (seconds : Nat)

structure Script where
  replies : List (String × List ScriptedReply)
  events : List ServerEvent := []
  lines : List String := []

namespace Script

/-- The reply to a request that the script does not foresee. -/
def plainReply : Request → Value
  | .search _ _ _ _ _ => .object [("hits", .object [("hits", .list [])])]
  | .get _ _ => .object [("_source", .object [])]
  | .aliasExists _ => .bool false
  | .indexExists _ => .bool false
  | .bulk actions => .list [.int actions.length, .list []]
  | _ => .object []

/-- Takes the next reply of a method from its queue. -/
def takeReply (method : String) : List (String × List ScriptedReply) →
    Option ScriptedReply × List (String × List ScriptedReply)
  | [] => (none, [])
  | (m, queue) :: rest =>
    if m = method then match queue with
      | [] => (none, (m, queue) :: rest)
      | r :: left => (some r, (m, left) :: rest)
    else
      let (r, others) := takeReply method rest
      (r, (m, queue) :: others)

def answer (script : Script) (r : Request) : ScriptedReply × Script :=
  let (scripted, left) := takeReply r.method script.replies
  (scripted.getD (.ok (plainReply r)),
    { script with replies := left, events := script.events ++ [.request r] })

def handle : Handler Server Failure Script
  | .request r, script =>
    let (reply, next) := script.answer r
    (.ok reply, next)
  | .pause seconds, script => (.ok (), { script with events := script.events ++ [.pause seconds] })
  | .report line, script => (.ok (), { script with lines := script.lines ++ [line] })

/-- Every page but the last one takes a reply from the queue. -/
def server : SearchServer Script where
  handle := handle
  pages script := ((script.replies.lookup "search").getD []).length + 2

end Script

end FreelanceBoard
