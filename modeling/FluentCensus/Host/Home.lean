import FluentCensus.Host.Basic

namespace FluentCensus.Host

def homeText (text : String) : String :=
  let trimmed := (text.toList.reverse.dropWhile (· = '/')).reverse
  if trimmed.isEmpty then "/" else String.ofList trimmed

/-- The home directory that a tilde with a user's name stands for. Without a name it is the one
    that the environment gives, or else that of the user. -/
def home? (host : Host) (user : String) : Option String :=
  if user.isEmpty then host.valueOf? "HOME" <|> host.login else host.homes.lookup user

def expandHome (host : Host) (path : Path) : Except Fault Path :=
  match path.anchor, path.parts with
  | .relative, first :: rest =>
    match first.toList with
    | '~' :: user =>
      if '\x00' ∈ user then .error .nulCharacter
      else match (host.home? (String.ofList user)).map homeText with
        | none => .error .noHome
        | some home =>
          if home.startsWith "~" then .error .noHome
          else
            let base := Path.ofString home
            .ok { base with parts := base.parts ++ rest }
    | _ => .ok path
  | _, _ => .ok path

end FluentCensus.Host
