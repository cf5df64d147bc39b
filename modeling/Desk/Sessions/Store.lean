import Desk.Lib.Ring
import Desk.Lib.Sha256

/-!
# Sessions and launch handoffs

The two stores of a desk that is unlocked in a browser: the sessions that
authorise its requests, and the handoffs a launch has minted and not yet spent.
Both are keyed by a MAC of the secret under a key of the process, which is a
parameter, `mac`, and `macOf` in the desk. Each operation is one critical section.
-/

namespace Desk.Sessions

/-- Nanoseconds on the process's clock; the zero time is 0. -/
abbrev Time := Nat

def second : Time := 1000000000

def launchWindow : Time := 60 * second

def maxSessions : Nat := 64

def maxLaunches : Nat := 32

def maxTombstones : Nat := 64

def signInSessionLifetime : Time := 8 * 3600 * second

def signInIdleLifetime : Time := 30 * 60 * second

structure Session where
  subject : String
  issuer : Option String
  created : Time
  name : String
  email : String
  absolute : Time
  expires : Time
  password : Bool
deriving DecidableEq

structure SessionStore where
  key : List UInt8
  live : Table Session

inductive HandoffVerdict
  | unknown
  | accepted
  | spent
  | expired
deriving DecidableEq

/-- The handoffs not yet spent with the end of their windows, and what the store
finished with. -/
structure LaunchStore where
  key : List UInt8
  given : Table Time
  finished : Ring HandoffVerdict maxTombstones

/-- One order in which Go may range over a map, whatever the map holds. -/
structure Iteration where
  keys : Table Time → List String
  perm : ∀ t, (keys t).Perm (AList.keys t)

def Iteration.inOrder : Iteration := ⟨fun t => AList.keys t, fun _ => List.Perm.refl _⟩

/-- `hex.EncodeToString` of the HMAC-SHA256 of a value. -/
def macOf (key : List UInt8) (value : String) : String := String.ofList (hexOf (Sha256.hmac key (bytesOf value)))

section
variable (mac : List UInt8 → String → String)

/-! ## The launch store -/

def LaunchStore.handle (ls : LaunchStore) (value : String) : String := mac ls.key value

def LaunchStore.finishLocked (ls : LaunchStore) (key : String) (how : HandoffVerdict) : LaunchStore :=
  { ls with finished := ls.finished.record key how }

def LaunchStore.delete (ls : LaunchStore) (key : String) : LaunchStore := { ls with given := ls.given.delete key }

/-- The first loop of `sweepLocked`: a handoff past its window is tombstoned. -/
def LaunchStore.lapse (now : Time) : List String → LaunchStore → LaunchStore
  | [], ls => ls
  | key :: rest, ls =>
    match ls.given.get? key with
    | none => lapse now rest ls
    | some ends =>
      if ends < now then lapse now rest ((ls.delete key).finishLocked key .expired) else lapse now rest ls

/-- The key with the earliest end, the first of them in the order of the range. -/
def earliest (given : Table Time) : List String → Option (String × Time)
  | [] => none
  | key :: rest =>
    match given.get? key, earliest given rest with
    | none, found => found
    | some ends, none => some (key, ends)
    | some ends, some (oldest, least) => if least < ends then some (oldest, least) else some (key, ends)

/-- The second loop of `sweepLocked`: while the map is full its earliest handoff goes. -/
def LaunchStore.evict (range : Iteration) : Nat → LaunchStore → LaunchStore
  | 0, ls => ls
  | rounds + 1, ls =>
    if ls.given.size < maxLaunches then ls
    else match earliest ls.given (range.keys ls.given) with
      | none => ls
      | some (oldest, _) => evict range rounds ((ls.delete oldest).finishLocked oldest .expired)

def LaunchStore.sweepLocked (range : Iteration) (now : Time) (ls : LaunchStore) : LaunchStore :=
  let lapsed := ls.lapse now (range.keys ls.given)
  lapsed.evict range lapsed.given.size

def LaunchStore.issue (range : Iteration) (now : Time) (value : String) (ls : LaunchStore) : LaunchStore :=
  let swept := ls.sweepLocked range now
  { swept with given := swept.given.set (swept.handle mac value) (now + launchWindow) }

def LaunchStore.spend (now : Time) (value : String) (ls : LaunchStore) : HandoffVerdict × LaunchStore :=
  if value = "" then (.unknown, ls)
  else
    let key := ls.handle mac value
    match ls.given.get? key with
    | some ends =>
      if ends < now then (.expired, (ls.delete key).finishLocked key .expired)
      else (.accepted, (ls.delete key).finishLocked key .spent)
    | none => ((ls.finished.get? key).getD .unknown, ls)

def LaunchStore.classify (now : Time) (value : String) (ls : LaunchStore) : HandoffVerdict :=
  if value = "" then .unknown
  else
    let key := ls.handle mac value
    match ls.given.get? key with
    | some ends => if ends < now then .expired else .accepted
    | none => (ls.finished.get? key).getD .unknown

/-- Every handoff of a request's cookies is spent, and one of them was live. -/
def spendPresented (now : Time) : List String → LaunchStore → Bool × LaunchStore
  | [], ls => (false, ls)
  | value :: rest, ls =>
    let how := (ls.spend mac now value).1
    let after := spendPresented now rest (ls.spend mac now value).2
    (how == .accepted || after.1, after.2)

/-! ## The session store -/

def SessionStore.handle (st : SessionStore) (id : String) : String := mac st.key id

def SessionStore.full (st : SessionStore) : Bool := decide (maxSessions ≤ st.live.size)

inductive MintFailure
  | tooManySessions
  | handoffTaken
deriving DecidableEq

/-- The bound, the commit and the write. -/
def createCommitting (now : Time) (id subject : String) (issuer : Option String)
    (commit : LaunchStore → Bool × LaunchStore) (st : SessionStore) (ls : LaunchStore) :
    Except MintFailure String × SessionStore × LaunchStore :=
  if maxSessions ≤ st.live.size then (.error .tooManySessions, st, ls)
  else
    let committed := commit ls
    if committed.1 = false then (.error .handoffTaken, st, committed.2)
    else
      let opened : Session :=
        { subject, issuer, created := now, name := "", email := "", absolute := 0, expires := 0, password := false }
      (.ok id, { st with live := st.live.set (st.handle mac id) opened }, committed.2)

/-- `create`, whose commit does nothing. -/
def create (now : Time) (id subject : String) (issuer : Option String) (st : SessionStore) (ls : LaunchStore) :
    Except MintFailure String × SessionStore × LaunchStore :=
  createCommitting mac now id subject issuer (fun ls => (true, ls)) st ls

/-- What `createExpiring` writes over the session it made, where that is still live. -/
def SessionStore.expiring (now : Time) (id name email : String) (st : SessionStore) : Bool × SessionStore :=
  match st.live.get? (st.handle mac id) with
  | none => (false, st)
  | some held =>
    let bounded : Session :=
      { held with
        name, email, absolute := now + signInSessionLifetime, expires := now + signInIdleLifetime }
    (true, { st with live := st.live.set (st.handle mac id) bounded })

/-- What `createPassword` writes over the session it made. -/
def SessionStore.password (id : String) (st : SessionStore) : Bool × SessionStore :=
  match st.live.get? (st.handle mac id) with
  | none => (false, st)
  | some held => (true, { st with live := st.live.set (st.handle mac id) { held with password := true } })

/-- An idle session is renewed, never past its absolute end. -/
def Session.renewed (now : Time) (s : Session) : Session :=
  let idle := now + signInIdleLifetime
  { s with expires := if s.absolute < idle then s.absolute else idle }

def SessionStore.lookup (now : Time) (id : String) (st : SessionStore) : Option Session × SessionStore :=
  if id = "" then (none, st)
  else
    let handle := st.handle mac id
    match st.live.get? handle with
    | none => (none, st)
    | some got =>
      if got.expires = 0 then (some got, st)
      else if got.expires ≤ now then (none, { st with live := st.live.delete handle })
      else (some (got.renewed now), { st with live := st.live.set handle (got.renewed now) })

def SessionStore.revoke (id : String) (st : SessionStore) : Bool × SessionStore :=
  let handle := st.handle mac id
  match st.live.get? handle with
  | none => (false, st)
  | some _ => (true, { st with live := st.live.delete handle })

/-- The timer of a session fires. -/
def SessionStore.expireVerified (now : Time) (handle : String) (st : SessionStore) : SessionStore :=
  match st.live.get? handle with
  | none => st
  | some held => if now < held.expires then st else { st with live := st.live.delete handle }

def SessionStore.close (st : SessionStore) : SessionStore := { st with live := Table.empty }

/-! ## Every order of the operations -/

/-- A session bought with handoffs, and when. -/
structure Mint where
  session : String
  handoffs : List String
  time : Time

/-- A handoff given up for room, and those it was chosen from. -/
structure Displaced where
  handoff : String
  among : List (String × Time)
  time : Time

/-- The stores, the sign-ins between two critical sections of `createExpiring`, and
what no store keeps: the handles of all sessions, when each handoff was issued, which
mint spent it, and which were displaced. -/
structure World where
  now : Time
  sessions : SessionStore
  launches : LaunchStore
  begun : List String
  known : List String
  issued : List (String × Time)
  minted : List Mint
  displaced : List Displaced

def World.start (now : Time) (sessionKey launchKey : List UInt8) : World where
  now := now
  sessions := { key := sessionKey, live := Table.empty }
  launches := { key := launchKey, given := Table.empty, finished := Ring.empty HandoffVerdict maxTombstones }
  begun := []
  known := []
  issued := []
  minted := []
  displaced := []

inductive Act
  | tick (elapsed : Time)
  | issue (range : Iteration) (value : String)
  | classify (value : String)
  | full
  | exchange (id : String) (cookies : List String)
  | create (id subject : String) (issuer : Option String)
  | createExpiring (id subject : String) (issuer : Option String)
  | expiring (id name email : String)
  | password (id : String)
  | lookup (id : String)
  | revoke (id : String)
  | expireVerified (handle : String)
  | close

/-- The handoffs of the cookies that are live. -/
def LaunchStore.presented (ls : LaunchStore) (now : Time) (cookies : List String) : List String :=
  (AList.keys ls.given).filter fun key =>
    cookies.any (fun value => value != "" && ls.handle mac value == key) &&
      (ls.given.get? key).any fun ends => decide (now ≤ ends)

def World.issue (w : World) (range : Iteration) (value : String) : World :=
  let lapsed := w.launches.lapse w.now (range.keys w.launches.given)
  let swept := w.launches.sweepLocked range w.now
  let gone := (AList.keys lapsed.given).filter fun key => !swept.given.has key
  { w with
    launches := w.launches.issue mac range w.now value
    issued := (w.launches.handle mac value, w.now) :: w.issued
    displaced := gone.map (fun key => ⟨key, lapsed.given.entries, w.now⟩) ++ w.displaced }

def World.exchange (w : World) (id : String) (cookies : List String) : World :=
  match createCommitting mac w.now id "local user" none (spendPresented mac w.now cookies) w.sessions w.launches with
  | (.error _, sessions, launches) => { w with sessions, launches }
  | (.ok _, sessions, launches) =>
    let handle := w.sessions.handle mac id
    { w with
      sessions, launches
      known := handle :: w.known
      minted := ⟨handle, w.launches.presented mac w.now cookies, w.now⟩ :: w.minted }

def World.create (w : World) (id subject : String) (issuer : Option String) (expiring : Bool) : World :=
  match Sessions.create mac w.now id subject issuer w.sessions w.launches with
  | (.error _, sessions, launches) => { w with sessions, launches }
  | (.ok _, sessions, launches) =>
    let handle := w.sessions.handle mac id
    { w with
      sessions, launches
      known := handle :: w.known
      begun := if expiring then handle :: w.begun else w.begun }

def World.step (w : World) : Act → World
  | .tick elapsed => { w with now := w.now + elapsed }
  | .issue range value => w.issue mac range value
  | .classify _ => w
  | .full => w
  | .exchange id cookies => w.exchange mac id cookies
  | .create id subject issuer => w.create mac id subject issuer false
  | .createExpiring id subject issuer => w.create mac id subject issuer true
  | .expiring id name email =>
    let handle := w.sessions.handle mac id
    if handle ∈ w.begun then
      { w with
        sessions := (w.sessions.expiring mac w.now id name email).2
        begun := w.begun.filter (· != handle) }
    else w
  | .password id => { w with sessions := (w.sessions.password mac id).2 }
  | .lookup id => { w with sessions := (w.sessions.lookup mac w.now id).2 }
  | .revoke id => { w with sessions := (w.sessions.revoke mac id).2 }
  | .expireVerified handle => { w with sessions := w.sessions.expireVerified w.now handle }
  | .close => { w with sessions := w.sessions.close }

/-- A token is minted at random: its MAC is none of those of the tokens before it. -/
def World.Fresh (w : World) : Act → Prop
  | .issue _ value => w.launches.handle mac value ∉ w.issued.map (·.1)
  | .exchange id _ => w.sessions.handle mac id ∉ w.known
  | .create id _ _ => w.sessions.handle mac id ∉ w.known
  | .createExpiring id _ _ => w.sessions.handle mac id ∉ w.known
  | _ => True

end

end Desk.Sessions
