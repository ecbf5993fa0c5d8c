import Turnstile.Error

/-! Passwords: the rule for new ones, hashing and verification. -/

namespace Turnstile.Password

def cost : Nat := 10

def validate (password : String) : Except AuthError Unit :=
  if password.length < minPasswordLength then .error (.validation .shortPassword) else .ok ()

def hash (salt : Draw) (password : String) : String :=
  Bcrypt.hashText cost salt (Bcrypt.keyOf password)

def verify (password stored : String) : Except AuthError Bool :=
  (Bcrypt.verify password stored).mapError fun fault => .internal (.unusableHash fault)

end Turnstile.Password
