import Turnstile.Main
import Turnstile.Http.Router
import Turnstile.Postgres.Scripted
import Turnstile.Programs.Server
import Turnstile.Schema
import Turnstile.Store.Disturbed
import Turnstile.Store.Memory
import Turnstile.Version
import Turnstile.Proofs.Execution
import Turnstile.Proofs.Table
import Turnstile.Proofs.Text.Utf8
import Turnstile.Proofs.Base64
import Turnstile.Proofs.Json.Reader
import Turnstile.Proofs.Json.Text
import Turnstile.Proofs.Json.Number
import Turnstile.Proofs.Json.Written
import Turnstile.Proofs.Json.Records
import Turnstile.Proofs.Json.Lexing
import Turnstile.Proofs.Json.Places
import Turnstile.Proofs.Json.Nesting
import Turnstile.Proofs.Json.Members
import Turnstile.Proofs.Token.Claims
import Turnstile.Proofs.Token.Codec
import Turnstile.Proofs.Token.Registered
import Turnstile.Proofs.Token.Agreement
import Turnstile.Proofs.Token.Expiry
import Turnstile.Proofs.Service.Tokens
import Turnstile.Proofs.Service.Lineage
import Turnstile.Proofs.Service.Race
import Turnstile.Proofs.Service.DenyList
import Turnstile.Proofs.Bcrypt
import Turnstile.Proofs.Service.FreshAccess
import Turnstile.Proofs.Store.Memory
import Turnstile.Proofs.Service.FailedLogout
import Turnstile.Proofs.Service.Footprint
import Turnstile.Proofs.Service.Registration
import Turnstile.Proofs.Service.Enrollment
import Turnstile.Proofs.Service.Authorization
import Turnstile.Proofs.Service.Isolation
import Turnstile.Proofs.Http.Refusal
import Turnstile.Proofs.Service.Refusal
import Turnstile.Proofs.Token.Spelling
import Turnstile.Proofs.Http.Bearer
import Turnstile.Proofs.Service.TokenKinds
import Turnstile.Proofs.Service.Permissions
import Turnstile.Proofs.Postgres.Script
import Turnstile.Proofs.SortedSet
import Turnstile.Proofs.Postgres.Roles
import Turnstile.Proofs.Postgres.Recorded
import Turnstile.Proofs.Postgres.Course
import Turnstile.Proofs.Postgres.Precedence
import Turnstile.Proofs.Token.Length
import Turnstile.Proofs.Http.Precedence
import Turnstile.Proofs.Service.Concealment
import Turnstile.Proofs.Store.Disturbed
import Turnstile.Proofs.Postgres.Concealment
import Turnstile.Proofs.Http.Concealment
import Turnstile.Proofs.Service.Login
import Turnstile.Proofs.Http.Login
import Turnstile.Proofs.Password
import Turnstile.Proofs.Service.FirstLogin
import Turnstile.Proofs.Store.Revocations
import Turnstile.Proofs.Store.LazyExpiry
import Turnstile.Proofs.Service.Deadlines
import Turnstile.Proofs.Service.Identity
import Turnstile.Proofs.Http.Gates
import Turnstile.Proofs.Postgres.Creation
import Turnstile.Proofs.Postgres.Deadline
import Turnstile.Proofs.Text.Integer
import Turnstile.Proofs.Config.Secret
import Turnstile.Proofs.Programs.Tool
