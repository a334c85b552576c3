/-
The SOCKS5 client and the SOCKS5 server agree on where to go and on what came of it, in
whatever pieces their bytes travel.
-/
import Opensesh.Socks

namespace Opensesh.Socks

open Text Ip Duplex

theorem acceptMethods_methods (ok : List Char → UInt16 → Proc Server.Result) (client : Client) :
    Server.acceptMethods ok client.methods =
      .write [5, 0] (.read 4 (Server.acceptRequest ok) Server.eof) := by
  apply if_pos
  unfold Client.methods
  split
  · decide
  · decide

theorem length_methods (client : Client) :
    client.methods.length = (UInt8.ofNat client.methods.length).toNat := by
  unfold Client.methods
  split
  · rfl
  · rfl

theorem greets (client : Client) (outcome : Reply) :
    Reaches (start client outcome)
      ⟨client.connect, [], .read 4 (Server.acceptRequest (Server.answer outcome)) Server.eof, []⟩ := by
  have hwrites := left_writes ([5, UInt8.ofNat client.methods.length] ++ client.methods)
    (.read 2 client.chosen client.eof) [] (Server.serve outcome) []
  have hhead := right_reads [5, UInt8.ofNat client.methods.length] rfl
    (fun head => if head.getD 0 0 ≠ 5 then Server.fail (.version (head.getD 0 0))
      else .read (head.getD 1 0).toNat (Server.acceptMethods (Server.answer outcome)) Server.eof)
    Server.eof client.methods (Proc.read 2 client.chosen client.eof) []
  have hmethods := right_reads client.methods (length_methods client)
    (Server.acceptMethods (Server.answer outcome)) Server.eof []
    (Proc.read 2 client.chosen client.eof) []
  rw [List.append_nil, acceptMethods_methods] at hmethods
  have hanswers := right_writes [5, 0]
    (.read 4 (Server.acceptRequest (Server.answer outcome)) Server.eof)
    (Proc.read 2 client.chosen client.eof) [] []
  have hchosen := left_reads [5, 0] rfl client.chosen client.eof []
    (.read 4 (Server.acceptRequest (Server.answer outcome)) Server.eof) []
  exact hwrites.trans (hhead.trans (hmethods.trans (hanswers.trans hchosen)))

theorem reads_port (outcome : Reply) (host : List Char) (port : UInt16)
    (left : Proc Client.Result) :
    Reaches ⟨left, [], Server.acceptPort (Server.answer outcome) 1 host, toBe16 port⟩
      ⟨left, [], Server.answer outcome host port, []⟩ := by
  have hport := right_reads (toBe16 port) rfl
    (fun port => if (1 : UInt8) ≠ 1 then
        Server.reply .commandNotSupported (Server.fail (.command 1))
      else Server.answer outcome host (ofBe16 (port.getD 0 0) (port.getD 1 0))) Server.eof [] left []
  rw [List.append_nil] at hport
  have hsame : ofBe16 ((toBe16 port).getD 0 0) ((toBe16 port).getD 1 0) = port := ofBe16_toBe16 port
  rw [if_neg (by decide), hsame] at hport
  exact hport

theorem reads_request {host : List Char} {port : UInt16} {sent : List UInt8}
    (hrequest : request host port = some sent) (outcome : Reply) (left : Proc Client.Result) :
    Reaches ⟨left, [], .read 4 (Server.acceptRequest (Server.answer outcome)) Server.eof, sent⟩
      ⟨left, [], Server.answer outcome (destination host) port, []⟩ := by
  unfold request at hrequest
  split at hrequest
  case h_1 ip hip =>
    cases hrequest
    rw [show destination host = ip.display by rw [destination, hip]; rfl]
    have hhead := right_reads [5, 1, 0, 1] rfl
      (Server.acceptRequest (Server.answer outcome)) Server.eof (ip.octets ++ toBe16 port) left []
    have haddress := right_reads ip.octets rfl
      (fun octets => Server.acceptPort (Server.answer outcome) 1 (Ipv4Addr.ofOctets octets).display)
      Server.eof (toBe16 port) left []
    exact hhead.trans (haddress.trans (reads_port outcome ip.display port left))
  case h_2 ip hip =>
    cases hrequest
    rw [show destination host = ip.display by rw [destination, hip]; rfl]
    have hhead := right_reads [5, 1, 0, 4] rfl
      (Server.acceptRequest (Server.answer outcome)) Server.eof (ip.octets ++ toBe16 port) left []
    have haddress := right_reads ip.octets rfl
      (fun octets => Server.acceptPort (Server.answer outcome) 1 (Ipv6Addr.ofOctets octets).display)
      Server.eof (toBe16 port) left []
    rw [Ipv6Addr.ofOctets_octets] at haddress
    exact hhead.trans (haddress.trans (reads_port outcome ip.display port left))
  case h_3 hnone =>
    split at hrequest
    case isTrue hlength =>
      cases hrequest
      rw [show destination host = bare host by rw [destination, hnone]]
      have hsize : (bytes (bare host)).length = (UInt8.ofNat (bytes (bare host)).length).toNat := by
        rw [UInt8.toNat_ofNat']
        omega
      have hhead := right_reads [5, 1, 0, 3] rfl
        (Server.acceptRequest (Server.answer outcome)) Server.eof
        (UInt8.ofNat (bytes (bare host)).length :: (bytes (bare host) ++ toBe16 port)) left []
      have hcount := right_reads [UInt8.ofNat (bytes (bare host)).length] rfl
        (fun length => .read (length.getD 0 0).toNat (fun name =>
          Server.acceptPort (Server.answer outcome) 1 (fromUtf8Lossy name)) Server.eof)
        Server.eof (bytes (bare host) ++ toBe16 port) left []
      have hname := right_reads (bytes (bare host)) hsize
        (fun name => Server.acceptPort (Server.answer outcome) 1 (fromUtf8Lossy name)) Server.eof
        (toBe16 port) left []
      rw [fromUtf8Lossy_bytes] at hname
      have hport := reads_port outcome (bare host) port left
      rw [List.append_assoc]
      exact hhead.trans (hcount.trans (hname.trans hport))
    case isFalse hlong => cases hrequest

theorem learns_success (client : Client) (right : Proc Server.Result) :
    Reaches ⟨.read 4 client.replied client.eof, [5, 0, 0, 1] ++ boundAddress, right, []⟩
      ⟨.done (.ok ()) true, [], right, []⟩ := by
  have hhead := left_reads [5, 0, 0, 1] rfl client.replied client.eof boundAddress right []
  have hrest := left_reads boundAddress rfl (fun _ => .done (.ok ()) true) client.eof [] right []
  exact hhead.trans hrest

theorem learns_refusal (client : Client) {outcome : Reply} (hrefused : outcome ≠ .succeeded)
    (right : Proc Server.Result) :
    Reaches ⟨.read 4 client.replied client.eof, [5, outcome.code, 0, 1] ++ boundAddress, right, []⟩
      ⟨client.fail (refusal outcome.code), boundAddress, right, []⟩ := by
  have hhead := left_reads [5, outcome.code, 0, 1] rfl client.replied client.eof boundAddress
    right []
  have hcode : outcome.code ≠ 0 := by
    cases outcome with
    | succeeded => exact absurd rfl hrefused
    | _ => decide
  have hreplied : client.replied [5, outcome.code, 0, 1] =
      client.fail (refusal outcome.code) := if_pos hcode
  rwa [hreplied] at hhead

/-- A request that fits is answered. -/
theorem reaches_ended (client : Client) (outcome : Reply) (hfits : ¬ TooLong client.host) :
    Reaches (start client outcome) (ended client outcome) := by
  obtain ⟨sent, hsent⟩ : ∃ sent, request client.host client.port = some sent := by
    unfold request
    split
    case h_1 => exact ⟨_, rfl⟩
    case h_2 => exact ⟨_, rfl⟩
    case h_3 hnone =>
      split
      case isTrue => exact ⟨_, rfl⟩
      case isFalse hlong => exact absurd ⟨hnone, Nat.lt_of_not_le hlong⟩ hfits
  have hgreets := greets client outcome
  have hconnect : client.connect = .write sent (.read 4 client.replied client.eof) := by
    rw [Client.connect, hsent]
  rw [hconnect] at hgreets
  have hasks := left_writes sent (.read 4 client.replied client.eof) []
    (.read 4 (Server.acceptRequest (Server.answer outcome)) Server.eof) []
  have hreads := reads_request hsent outcome (.read 4 client.replied client.eof)
  have hanswers := right_writes [5, outcome.code, 0, 1, 0, 0, 0, 0, 0, 0]
    (.done (.ok (destination client.host, client.port) : Server.Result) (outcome = .succeeded))
    (.read 4 client.replied client.eof) [] []
  have hanswered := hgreets.trans (hasks.trans (hreads.trans hanswers))
  unfold ended
  split
  case isTrue hsucceeded =>
    subst hsucceeded
    exact hanswered.trans (learns_success client _)
  case isFalse hrefused =>
    rw [decide_eq_false hrefused] at hanswered
    exact hanswered.trans (learns_refusal client hrefused _)

/-- A name that is too long is asked for by nobody, and both sides fail. -/
theorem reaches_endedLong (client : Client) (outcome : Reply) (hlong : TooLong client.host) :
    Reaches (start client outcome) (endedLong client) := by
  have hrequest : request client.host client.port = none := by
    rw [request, hlong.1]
    exact if_neg (Nat.not_le_of_lt hlong.2)
  have hgreets := greets client outcome
  have hconnect : client.connect = client.fail "the host name is too long" := by
    rw [Client.connect, hrequest]
  rw [hconnect] at hgreets
  exact hgreets.trans (right_ends _ _ _)

/-- Client and server agree on the destination and on the outcome, or both fail, whatever the
pieces the bytes come in: no run goes on for ever, and all that stop, stop alike. A refused
client leaves the last six bytes of the answer unread. -/
theorem agree (client : Client) (outcome : Reply) :
    ∃ bound, ∀ count state, Runs Step count (start client outcome) state →
      count ≤ bound ∧
      (Stuck state → (¬ TooLong client.host → state = ended client outcome) ∧
        (TooLong client.host → state = endedLong client)) := by
  by_cases hlong : TooLong client.host
  · obtain ⟨bound, hbound⟩ := ends_of_reaches (reaches_endedLong client outcome hlong) stuck_of_done
    refine ⟨bound, fun count state hrun => ⟨(hbound count state hrun).1, fun hstuck => ?_⟩⟩
    exact ⟨fun hfits => absurd hlong hfits, fun _ => (hbound count state hrun).2 hstuck⟩
  · have hstuck : Stuck (ended client outcome) := by
      unfold ended
      split
      · exact stuck_of_done
      · exact stuck_of_done
    obtain ⟨bound, hbound⟩ := ends_of_reaches (reaches_ended client outcome hlong) hstuck
    refine ⟨bound, fun count state hrun => ⟨(hbound count state hrun).1, fun hstuck => ?_⟩⟩
    exact ⟨fun _ => (hbound count state hrun).2 hstuck, fun hlong' => absurd hlong' hlong⟩

namespace AgreeWitness

def client : Client := ⟨['a'], 80, none⟩

/-- A refused connection: the server has the destination, and the client has read four of the
answer's ten bytes. -/
theorem refusal_unread : ∃ count state,
    Runs Step count (start client .connectionRefused) state ∧ Stuck state ∧
      state.right = .done (.ok (['a'], 80)) false ∧ state.toLeft = [0, 0, 0, 0, 0, 0] := by
  obtain ⟨count, hrun⟩ := reaches_ended client .connectionRefused (by
    intro hlong
    exact absurd hlong.2 (by decide))
  exact ⟨count, _, hrun, stuck_of_done, rfl, rfl⟩

end AgreeWitness

end Opensesh.Socks
